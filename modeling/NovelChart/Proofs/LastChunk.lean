import NovelChart.Proofs.InPlace

/-!
# The short chunk stays last

A draw chooses among all the numbers that are left but the last one, which is only taken when it is
alone. So the last chunk of an image, the only one that can be short, is stored behind all others.
Every place before it holds a full chunk, and the places of a stored image begin at the multiples of
the chunk size, whatever the seed.

## Main results

* `Shuffle.getLast?_drawAll`: the last number is drawn last
* `Shuffle.getLast?_positions`: the last chunk is stored at the last place
* `Shuffle.Plan.size_of_not_last`: every place but the last holds a full chunk
* `Shuffle.draws_keep_last`: what the draws of every seed give, and the tables that follow from them
-/

namespace NovelChart.Shuffle

/-! ### The order of drawing -/

/-- The last value is drawn last: a draw reaches it only when it is alone. -/
theorem getLast?_drawAll (n : Nat) (values : List Nat) (g : Generator)
    (length : values.length = n + 1) :
    (drawAll (n + 1) values g).getLast? = values.getLast? := by
  induction n generalizing values g with
  | zero =>
    obtain ⟨value, rfl⟩ := List.length_eq_one_iff.mp length
    rfl
  | succ n ih =>
    rw [drawAll]
    have bound := g.range_le n
    rw [if_neg (Nat.succ_ne_zero n), Nat.add_sub_cancel]
    generalize g.range 0 n = drawn at bound ⊢
    obtain ⟨i, g'⟩ := drawn
    have shorter : (values.eraseIdx i).length = n + 1 := by
      rw [List.length_eraseIdx_of_lt (by omega)]
      omega
    -- Taking out a value before the last one leaves the last one where it is.
    have kept : (values.eraseIdx i).getLast? = values.getLast? := by
      rw [List.getLast?_eq_getElem?, List.getLast?_eq_getElem?, shorter, length,
        List.getElem?_eraseIdx_of_ge (by simpa using bound)]
      rfl
    dsimp only
    rw [List.getLast?_cons_of_ne_nil, ih _ g' shorter, kept]
    intro none
    have drawn := (drawAll_perm (n + 1) _ g' shorter).length_eq
    rw [none, shorter] at drawn
    cases drawn

/-- The number below the bound is drawn last. -/
theorem getLast?_drawOrder (n : Nat) (seed : UInt32) :
    (drawOrder (n + 1) seed).getLast? = some n := by
  rw [drawOrder, getLast?_drawAll n _ _ List.length_range, List.range_succ, List.getLast?_concat]

theorem length_drawOrder (count : Nat) (seed : UInt32) : (drawOrder count seed).length = count :=
  (drawOrder_perm count seed).length_eq.trans List.length_range

/-- The places of the chunks are some order of the places. -/
theorem positions_perm (count : Nat) (seed : UInt32) :
    (positions count seed).Perm (List.range count) :=
  map_idxOf_perm (drawOrder_perm count seed)

/-- The last chunk is stored at the last place. -/
theorem getLast?_positions (n : Nat) (seed : UInt32) :
    (positions (n + 1) seed).getLast? = some n := by
  have distinct := (drawOrder_perm (n + 1) seed).nodup_iff.mpr List.nodup_range
  have last := getLast?_drawOrder n seed
  rw [List.getLast?_eq_getElem?, length_drawOrder, Nat.add_sub_cancel] at last
  obtain ⟨inside, here⟩ := List.getElem?_eq_some_iff.mp last
  have place := distinct.idxOf_getElem n inside
  rw [here] at place
  rw [positions, List.range_succ, List.map_append, List.map_singleton, List.getLast?_concat, place]

/-! ### The tables of a plan -/

namespace Plan

variable {p : Plan} {params : ScrambleParams} {length offset : Nat}

/-- The plan for an image, as its length and parameters give it. -/
theorem eq_of_plan (planned : plan params length offset = .ok p) :
    p = ⟨params.chunkSize.toInt.toNat, length,
      drawOrder ((length + params.chunkSize.toInt.toNat - 1) / params.chunkSize.toInt.toNat)
        (params.seed ^^^ seedKey)⟩ := by
  simp only [plan, refuse_eq_ok] at planned
  exact (Except.ok.inj planned.2).symm

/-- The order of a plan is drawn from its seed. -/
theorem order_eq (planned : plan params length offset = .ok p) :
    p.order = drawOrder p.order.length (params.seed ^^^ seedKey) := by
  rw [eq_of_plan planned, length_drawOrder]

/-- Every place but the last holds a full chunk. -/
theorem size_of_not_last (planned : plan params length offset = .ok p) {i k : Nat}
    (early : i + 1 < p.order.length) (stored : p.order[i]? = some k) : p.size k = p.chunk := by
  obtain ⟨covers, _⟩ := covers_of_plan planned
  have distinct := covers.perm.nodup_iff.mpr List.nodup_range
  obtain ⟨n, count⟩ : ∃ n, p.order.length = n + 1 := ⟨p.order.length - 1, by omega⟩
  rw [size, if_neg]
  intro last
  -- The last chunk stands at the last place, and nowhere else.
  have final := getLast?_drawOrder n (params.seed ^^^ seedKey)
  rw [← count, ← order_eq planned] at final
  obtain rfl : k = n := by omega
  rw [List.getLast?_eq_getElem?, count, Nat.add_sub_cancel, ← stored] at final
  have same := (List.getElem?_inj (by omega) distinct).mp final
  omega

/-- A stored place begins behind as many full chunks as there are places before it. -/
theorem getElem?_offsets_eq (planned : plan params length offset = .ok p) {i : Nat}
    (inside : i < p.order.length) : p.offsets[i]? = some (i * p.chunk) := by
  have full : (p.order.take i).map p.size = List.replicate i p.chunk := by
    refine List.eq_replicate_iff.mpr ⟨by simp; omega, ?_⟩
    intro size member
    obtain ⟨k, before, rfl⟩ := List.mem_map.mp member
    obtain ⟨j, here⟩ := List.mem_iff_getElem?.mp before
    rw [List.getElem?_take] at here
    split at here
    · exact size_of_not_last planned (by omega) here
    · cases here
  have start := offsets_getD inside
  rw [full, List.sum_replicate_nat, List.getD_eq_getElem?_getD] at start
  have here : i < p.offsets.length := by rwa [length_offsets]
  rw [List.getElem?_eq_getElem here] at start ⊢
  exact congrArg some start

end Plan

/-- For every seed and every number of chunks, no draw is beyond its bound and none takes out a
number that is not there. The draws give each chunk a place of its own, and the last chunk the last
place. Hence the tables of an image are those of a plan in which every place begins at a multiple of
the chunk size, and every chunk that is not stored last is full. -/
theorem draws_keep_last (seed : UInt32) (count : Nat) (params : ScrambleParams)
    (length offset : Nat) :
    (∀ (g : Generator) (high : Nat), (g.range 0 high).1 ≤ high) ∧
    noteDraws? count (List.range count) (Generator.ofSeed seed) 0 (List.replicate count 0) =
      some (positions count seed) ∧
    (positions count seed).Perm (List.range count) ∧
    (1 ≤ count → (positions count seed).getLast? = some (count - 1)) ∧
    (0 < params.chunkSize.toInt → ∃ p, plan params length offset = .ok p ∧
      p.chunk = params.chunkSize.toInt.toNat ∧
      p.order.length = (length + p.chunk - 1) / p.chunk ∧
      Layout.ofParams? params length = some p.layout ∧
      p.layout.places = positions p.order.length (params.seed ^^^ seedKey) ∧
      (∀ i < p.order.length, p.layout.offsets[i]? = some (i * p.chunk)) ∧
      ∀ i k, i + 1 < p.order.length → p.layout.places[k]? = some i →
        p.layout.size? k = some p.chunk) := by
  refine ⟨Generator.range_le, noteDraws?_positions count seed, positions_perm count seed, ?last,
    ?tables⟩
  case last =>
    intro some
    obtain ⟨n, rfl⟩ : ∃ n, count = n + 1 := ⟨count - 1, by omega⟩
    exact getLast?_positions n seed
  case tables =>
    intro positive
    obtain ⟨p, planned⟩ := exists_plan positive length offset
    obtain ⟨covers, _⟩ := Plan.covers_of_plan planned
    have tables := Plan.ofParams?_eq planned
    have places : p.layout.places = (List.range p.order.length).map fun k => p.order.idxOf k := rfl
    refine ⟨p, planned, ?_, ?_, tables, ?_, fun i inside => Plan.getElem?_offsets_eq planned inside,
      fun i k early placed => ?_⟩
    · rw [Plan.eq_of_plan planned]
    · rw [Plan.eq_of_plan planned, length_drawOrder]
    · rw [places, positions, ← Plan.order_eq planned]
    · -- The chunk that is stored at a place is the one whose place it is.
      rw [places, List.getElem?_map, Option.map_eq_some_iff] at placed
      obtain ⟨k', here, rfl⟩ := placed
      obtain ⟨inside, rfl⟩ := List.getElem?_eq_some_iff.mp here
      rw [List.length_range] at inside
      rw [List.getElem_range] at early
      have member := covers.perm.symm.subset (List.mem_range.mpr inside)
      rw [covers.layout_size?_eq inside, Plan.size_of_not_last planned early]
      exact List.getElem?_idxOf member

/-- Eight chunks change places and the last one stays. Seven bytes in chunks of two are stored at
the offsets of full chunks, though the last of them is short. -/
theorem draws_keep_last_eight :
    positions 8 (0x1234 ^^^ seedKey) = [4, 5, 1, 0, 6, 2, 3, 7] ∧
      (positions 8 (0x1234 ^^^ seedKey)).getLast? = some 7 ∧
      ∃ p, plan ⟨2, 1⟩ 7 0 = .ok p ∧ p.order.length = 4 ∧ p.layout.offsets[3]? = some 6 ∧
        p.layout.size? 3 = some 1 := by
  obtain ⟨_, _, _, last, tables⟩ := draws_keep_last (0x1234 ^^^ seedKey) 8 ⟨2, 1⟩ 7 0
  obtain ⟨p, planned, chunk, count, _, _, offsets, _⟩ := tables (by decide)
  rw [chunk] at count offsets
  have four : p.order.length = 4 := count
  refine ⟨by decide +kernel, last (by decide), p, planned, four, offsets 3 (by omega), ?_⟩
  obtain ⟨covers, length⟩ := Plan.covers_of_plan planned
  rw [covers.layout_size?_eq (by omega), Plan.size, four, length, chunk]
  rfl

end NovelChart.Shuffle
