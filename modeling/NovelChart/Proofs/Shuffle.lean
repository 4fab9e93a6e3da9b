import Mathlib.Data.List.Perm.Basic
import NovelChart.Proofs.Format
import NovelChart.Shuffle.Basic

/-!
# Shuffling and restoring images

The order in which chunks are stored is drawn at random, one number after another out of those that
are left. Every draw is in range, so the order is a permutation of the chunk numbers. Cutting an
image into consecutive pieces and concatenating them is the identity for any order of the pieces;
storing and restoring are each a cut along one order followed by a concatenation along the other,
so they undo each other.

## Main results

* `Shuffle.Generator.range_le`: a bounded draw stays within its bound
* `Shuffle.drawOrder_perm`: the order of drawing is a permutation of the chunk numbers
* `Shuffle.scramble_of_unscramble`, `Shuffle.unscramble_of_scramble`: the two directions are inverse
-/

namespace NovelChart.Shuffle

/-! ### Bounded draws -/

/-- Rounding to a multiple of a unit adds at most half the unit. -/
private theorem two_mul_rounded_le (n unit : Nat) :
    2 * ((if 2 * (n % unit) > unit || (2 * (n % unit) == unit && n / unit % 2 == 1) then
      n / unit + 1 else n / unit) * unit) ≤ 2 * n + unit := by
  have split := Nat.div_add_mod n unit
  rw [Nat.mul_comm] at split
  split
  · next up =>
    -- It is only rounded up when the remainder makes up at least half the unit.
    simp only [gt_iff_lt, Bool.or_eq_true, decide_eq_true_eq, Bool.and_eq_true, beq_iff_eq] at up
    rw [Nat.add_mul, Nat.one_mul]
    omega
  · omega

/-- Rounding to fifty-three bits grows a number by at most one part in `2 ^ 53`. -/
theorem round53_le (n : Nat) : 2 ^ 53 * round53 n ≤ (2 ^ 53 + 1) * n := by
  have half : 2 * round53 n ≤ 2 * n + 2 ^ (n.log2 - 52) := two_mul_rounded_le n _
  rcases Nat.lt_or_ge n.log2 52 with small | large
  · -- A small number is kept: the unit is one.
    rw [Nat.sub_eq_zero_of_le (Nat.le_of_lt small), Nat.pow_zero] at half
    omega
  · have unit : 2 ^ 52 * 2 ^ (n.log2 - 52) ≤ n := by
      rw [← Nat.pow_add, Nat.add_sub_cancel' large]
      exact Nat.log2_self_le (by rintro rfl; simp at large)
    omega

/-- A bounded draw stays within its bound. -/
theorem Generator.range_le (g : Generator) (high : Nat) : (g.range 0 high).1 ≤ high := by
  -- Two roundings, each by one part in `2 ^ 53`, do not make up for the word that is missing to
  -- `2 ^ 32`.
  simp only [Generator.range]
  generalize g.next.1 = drawn
  have word := drawn.toNat_lt
  have scale := round53_le (high - 0 + 1)
  have product := round53_le (drawn.toNat * round53 (high - 0 + 1))
  have bound : drawn.toNat * round53 (high - 0 + 1) ≤ (2 ^ 32 - 1) * round53 (high - 0 + 1) :=
    Nat.mul_le_mul_right _ (by omega)
  omega

/-! ### The order of drawing -/

/-- A draw is in range; the last value is taken without one. -/
theorem drawn_lt (n : Nat) (g : Generator) :
    (if n = 0 then (0, g) else g.range 0 (n - 1)).1 < n + 1 := by
  by_cases last : n = 0
  · rw [if_pos last]
    exact Nat.succ_pos n
  · rw [if_neg last]
    have bound := g.range_le (n - 1)
    omega

theorem drawAll_perm (n : Nat) (values : List Nat) (g : Generator) (length : values.length = n) :
    (drawAll n values g).Perm values := by
  induction n generalizing values g with
  | zero =>
    rw [List.length_eq_zero_iff.mp length]
    exact .refl _
  | succ n ih =>
    rw [drawAll]
    have inside := length ▸ drawn_lt n g
    generalize (if n = 0 then (0, g) else g.range 0 (n - 1)) = drawn at inside ⊢
    obtain ⟨i, g'⟩ := drawn
    have rest := ih (values.eraseIdx i) g' (by rw [List.length_eraseIdx_of_lt inside]; omega)
    have taken : values.getD i 0 = values[i] := by
      rw [List.getD_eq_getElem?_getD, List.getElem?_eq_getElem inside, Option.getD_some]
    dsimp only
    rw [taken]
    exact (rest.cons _).trans (List.getElem_cons_eraseIdx_perm inside)

/-- The order of drawing is a permutation of the chunk numbers. -/
theorem drawOrder_perm (count : Nat) (seed : UInt32) :
    (drawOrder count seed).Perm (List.range count) :=
  drawAll_perm count _ _ List.length_range

/-! ### Cutting and concatenating -/

section Pieces

variable {keys : List Nat} {size : Nat → Nat} {k : Nat}

/-- Where the piece of a key begins when pieces follow one another in the order of the keys. -/
def pieceStart (keys : List Nat) (size : Nat → Nat) (k : Nat) : Nat :=
  ((keys.take (keys.idxOf k)).map size).sum

/-- The piece of a key, cut out of a whole. -/
def piece (keys : List Nat) (size : Nat → Nat) (whole : List UInt8) (k : Nat) : List UInt8 :=
  (whole.drop (pieceStart keys size k)).take (size k)

theorem pieceStart_cons_self : pieceStart (k :: keys) size k = 0 := by
  simp [pieceStart]

theorem pieceStart_cons_of_ne {a : Nat} (ne : a ≠ k) :
    pieceStart (a :: keys) size k = size a + pieceStart keys size k := by
  simp [pieceStart, List.idxOf_cons_ne keys ne]

/-- Cutting a concatenation gives the parts back. -/
theorem piece_flatMap {part : Nat → List UInt8} (sized : ∀ k ∈ keys, (part k).length = size k)
    (member : k ∈ keys) : piece keys size (keys.flatMap part) k = part k := by
  induction keys with
  | nil => cases member
  | cons a keys ih =>
    have first := sized a List.mem_cons_self
    by_cases eq : a = k
    · -- The piece stands at the front.
      subst eq
      rw [piece, pieceStart_cons_self, List.drop_zero, List.flatMap_cons, ← first, List.take_left']
      rfl
    · have later := ih (fun k member => sized k (List.mem_cons_of_mem _ member))
        ((List.mem_cons.mp member).resolve_left (Ne.symm eq))
      rw [piece, pieceStart_cons_of_ne eq, List.flatMap_cons, ← first, ← List.drop_drop,
        List.drop_left]
      exact later

/-- Concatenating all pieces gives the whole. -/
theorem flatMap_piece (distinct : keys.Nodup) {whole : List UInt8}
    (length : whole.length = (keys.map size).sum) :
    keys.flatMap (piece keys size whole) = whole := by
  induction keys generalizing whole with
  | nil =>
    rw [List.length_eq_zero_iff.mp length]
    rfl
  | cons a keys ih =>
    rw [List.map_cons, List.sum_cons] at length
    obtain ⟨fresh, distinct⟩ := List.nodup_cons.mp distinct
    -- The later pieces are cut out of what is left behind the first.
    have later : keys.flatMap (piece (a :: keys) size whole) =
        keys.flatMap (piece keys size (whole.drop (size a))) := by
      apply List.flatMap_congr
      intro k member
      have ne : a ≠ k := fun eq => fresh (eq ▸ member)
      rw [piece, piece, pieceStart_cons_of_ne ne, List.drop_drop]
    rw [List.flatMap_cons, later, ih distinct (by rw [List.length_drop]; omega), piece,
      pieceStart_cons_self, List.drop_zero, List.take_append_drop]

/-- A piece has the size of its key. -/
theorem length_piece {whole : List UInt8} (length : whole.length = (keys.map size).sum)
    (member : k ∈ keys) : (piece keys size whole k).length = size k := by
  induction keys generalizing whole with
  | nil => cases member
  | cons a keys ih =>
    rw [List.map_cons, List.sum_cons] at length
    by_cases eq : a = k
    · subst eq
      rw [piece, pieceStart_cons_self, List.drop_zero, List.length_take]
      omega
    · have later : (piece keys size (whole.drop (size a)) k).length = size k :=
        ih (by rw [List.length_drop]; omega)
          ((List.mem_cons.mp member).resolve_left (Ne.symm eq))
      rwa [piece, List.drop_drop, ← pieceStart_cons_of_ne eq] at later

/-- Cutting along one order of the keys and concatenating along another is undone by doing the
same with the orders exchanged. -/
theorem flatMap_piece_flatMap {keys' : List Nat} (perm : keys'.Perm keys) (distinct : keys.Nodup)
    {whole : List UInt8} (length : whole.length = (keys.map size).sum) :
    keys.flatMap (piece keys' size (keys'.flatMap (piece keys size whole))) = whole := by
  -- The second cut finds the pieces of the first, each with its size.
  have same : keys.flatMap (piece keys' size (keys'.flatMap (piece keys size whole))) =
      keys.flatMap (piece keys size whole) := by
    apply List.flatMap_congr
    intro k member
    exact piece_flatMap (fun k member => length_piece length (perm.subset member))
      (perm.symm.subset member)
  rw [same, flatMap_piece distinct length]

/-- All pieces together are as long as the whole, in any order. -/
theorem length_flatMap_piece {keys' : List Nat} (perm : keys'.Perm keys) {whole : List UInt8}
    (length : whole.length = (keys.map size).sum) :
    (keys'.flatMap (piece keys size whole)).length = whole.length := by
  have sizes : keys'.map (fun k => (piece keys size whole k).length) = keys'.map size :=
    List.map_congr_left fun k member => length_piece length (perm.subset member)
  rw [List.length_flatMap, sizes, (perm.map size).sum_nat, length]

end Pieces

/-! ### Plans -/

namespace Plan

variable {p : Plan}

/-- The plan has just the chunks that its length needs, in some order. -/
structure Covers (p : Plan) : Prop where
  perm : p.order.Perm (List.range p.order.length)
  total : ((List.range p.order.length).map p.size).sum = p.length

/-- Running offsets are the sums of the sizes before each key. -/
private theorem running_eq (size : Nat → Nat) (keys done : List Nat) (start : Nat) :
    (keys.foldl (fun (offsets, offset) k => (offsets ++ [offset], offset + size k))
      (done, start)).1 =
    done ++ (List.range keys.length).map fun i => start + ((keys.take i).map size).sum := by
  induction keys generalizing done start with
  | nil => simp
  | cons k keys ih =>
    rw [List.foldl_cons, ih, List.length_cons, List.range_succ_eq_map]
    simp [List.append_assoc, Function.comp_def, Nat.add_assoc]

/-- Every stored place has an offset. -/
theorem length_offsets (p : Plan) : p.offsets.length = p.order.length := by
  rw [Plan.offsets, running_eq p.size p.order [] 0]
  simp

/-- The offset of a stored place is the sum of the sizes before it. -/
theorem offsets_getD {i : Nat} (inside : i < p.order.length) :
    p.offsets.getD i 0 = ((p.order.take i).map p.size).sum := by
  have offsets := running_eq p.size p.order [] 0
  rw [Plan.offsets, offsets]
  simp [List.getD_eq_getElem?_getD, inside]

/-- A chunk of the stored image is a piece along the stored order. -/
theorem storedChunk_eq_piece (stored : List UInt8) {k : Nat} (member : k ∈ p.order) :
    p.storedChunk p.offsets stored k = piece p.order p.size stored k := by
  rw [storedChunk, offsets_getD (List.idxOf_lt_length_of_mem member), piece, pieceStart]

private theorem take_idxOf_range {k n : Nat} (inside : k < n) :
    (List.range n).take ((List.range n).idxOf k) = List.range k := by
  have place := List.nodup_range.idxOf_getElem k (show k < (List.range n).length by simpa)
  rw [List.getElem_range] at place
  rw [place, List.take_range, Nat.min_eq_left (Nat.le_of_lt inside)]

theorem pieceStart_range {k : Nat} (inside : k < p.order.length) :
    pieceStart (List.range p.order.length) p.size k = k * p.chunk := by
  -- Only the last chunk can be short, and it does not stand before another.
  have full : (List.range k).map p.size = List.replicate k p.chunk := by
    refine List.eq_replicate_iff.mpr ⟨by simp, ?_⟩
    intro n member
    obtain ⟨j, before, rfl⟩ := List.mem_map.mp member
    have earlier := List.mem_range.mp before
    rw [size, if_neg (by omega)]
  rw [pieceStart, take_idxOf_range inside, full, List.sum_replicate_nat]

/-- A chunk of the plain image is a piece along the plain order. -/
theorem plainChunk_eq_piece (plain : List UInt8) {k : Nat} (inside : k < p.order.length) :
    p.plainChunk plain k = piece (List.range p.order.length) p.size plain k := by
  rw [plainChunk, piece, pieceStart_range inside]

theorem store_eq (covers : p.Covers) (plain : List UInt8) :
    p.store plain = p.order.flatMap (piece (List.range p.order.length) p.size plain) := by
  rw [store]
  apply List.flatMap_congr
  intro k member
  exact plainChunk_eq_piece plain (List.mem_range.mp (covers.perm.subset member))

theorem restore_eq (covers : p.Covers) (stored : List UInt8) :
    p.restore stored = (List.range p.order.length).flatMap (piece p.order p.size stored) := by
  rw [restore]
  apply List.flatMap_congr
  intro k member
  exact storedChunk_eq_piece stored (covers.perm.symm.subset member)

theorem Covers.total_order (covers : p.Covers) : (p.order.map p.size).sum = p.length :=
  (covers.perm.map p.size).sum_nat.trans covers.total

theorem length_store (covers : p.Covers) {plain : List UInt8} (length : plain.length = p.length) :
    (p.store plain).length = plain.length := by
  rw [store_eq covers]
  exact length_flatMap_piece covers.perm (length.trans covers.total.symm)

theorem length_restore (covers : p.Covers) {stored : List UInt8}
    (length : stored.length = p.length) : (p.restore stored).length = stored.length := by
  rw [restore_eq covers]
  exact length_flatMap_piece covers.perm.symm (length.trans covers.total_order.symm)

/-- Restoring undoes storing. -/
theorem restore_store (covers : p.Covers) {plain : List UInt8} (length : plain.length = p.length) :
    p.restore (p.store plain) = plain := by
  rw [restore_eq covers, store_eq covers]
  exact flatMap_piece_flatMap covers.perm List.nodup_range (length.trans covers.total.symm)

/-- Storing undoes restoring. -/
theorem store_restore (covers : p.Covers) {stored : List UInt8}
    (length : stored.length = p.length) : p.store (p.restore stored) = stored := by
  rw [store_eq covers, restore_eq covers]
  exact flatMap_piece_flatMap covers.perm.symm (covers.perm.nodup_iff.mpr List.nodup_range)
    (length.trans covers.total_order.symm)

/-- The sizes of as many chunks as a length needs add up to that length. -/
theorem sum_sizes (p : Plan) (positive : 0 < p.chunk)
    (count : p.order.length = (p.length + p.chunk - 1) / p.chunk) :
    ((List.range p.order.length).map p.size).sum = p.length := by
  cases n : p.order.length with
  | zero =>
    have empty := (Nat.div_eq_zero_iff_lt positive).mp (count.symm.trans n)
    simp only [List.range_zero, List.map_nil, List.sum_nil]
    omega
  | succ k =>
    -- The chunks before the last end where it starts, and it takes what is left.
    have inside : k < p.order.length := by omega
    have starts := pieceStart_range inside
    rw [pieceStart, take_idxOf_range inside] at starts
    have last : p.size k = p.length - k * p.chunk := by rw [size, if_pos n.symm]
    have fits : k * p.chunk ≤ p.length := by
      have rounded := Nat.div_mul_le_self (p.length + p.chunk - 1) p.chunk
      rw [← count, n, Nat.succ_mul] at rounded
      omega
    rw [List.range_succ, List.map_append, List.sum_append, starts, List.map_singleton,
      List.sum_singleton, last]
    omega

/-- A plan for a length covers just that length. -/
theorem covers_of_plan {params : ScrambleParams} {length offset : Nat}
    (planned : plan params length offset = .ok p) : p.Covers ∧ p.length = length := by
  simp only [plan, refuse_eq_ok] at planned
  obtain ⟨positive, eq⟩ := planned
  cases eq
  have perm := drawOrder_perm ((length + params.chunkSize.toInt.toNat - 1) /
    params.chunkSize.toInt.toNat) (params.seed ^^^ seedKey)
  have count := perm.length_eq.trans List.length_range
  refine ⟨⟨?_, sum_sizes _ ?_ count⟩, rfl⟩
  · simpa only [count] using perm
  · simp only
    omega

/-- A plan does not depend on where the image begins. -/
theorem plan_offset {params : ScrambleParams} {length offset : Nat} (offset' : Nat)
    (planned : plan params length offset = .ok p) : plan params length offset' = .ok p := by
  simp only [plan, refuse_eq_ok] at planned ⊢
  exact planned

end Plan

/-! ### Images -/

variable {stored plain : List UInt8} {params : ScrambleParams} {offset : Nat}

/-- What was put in order is stored as it was. -/
theorem scramble_of_unscramble (restored : unscramble stored params offset = .ok plain) :
    scramble plain params = .ok stored ∧ plain.length = stored.length := by
  simp only [unscramble, bind_eq_ok, pure_eq_ok] at restored
  obtain ⟨p, planned, rfl⟩ := restored
  obtain ⟨covers, length⟩ := Plan.covers_of_plan planned
  have same := Plan.length_restore covers length.symm
  refine ⟨?_, same⟩
  simp only [scramble, bind_eq_ok, pure_eq_ok, same]
  exact ⟨p, Plan.plan_offset 0 planned, Plan.store_restore covers length.symm⟩

/-- What was stored is put in order as it was. -/
theorem unscramble_of_scramble (kept : scramble plain params = .ok stored) (offset : Nat) :
    unscramble stored params offset = .ok plain ∧ stored.length = plain.length := by
  simp only [scramble, bind_eq_ok, pure_eq_ok] at kept
  obtain ⟨p, planned, rfl⟩ := kept
  obtain ⟨covers, length⟩ := Plan.covers_of_plan planned
  have same := Plan.length_store covers length.symm
  refine ⟨?_, same⟩
  simp only [unscramble, bind_eq_ok, pure_eq_ok, same]
  exact ⟨p, Plan.plan_offset offset planned, Plan.restore_store covers length.symm⟩

end NovelChart.Shuffle
