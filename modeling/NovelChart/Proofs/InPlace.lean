import Mathlib.Logic.Function.Basic
import NovelChart.Proofs.Shuffle

/-!
# Shuffling in place

An image can be shuffled with tables that are filled in place: each draw is noted under the number
that it takes out, the table of places is inverted in the same way, and the chunks are copied to the
offsets of their places. Here every such access is guarded, and the whole gives up at the first one
that is out of range. None is: the guarded computation always ends, with the result of the plain
one.

## Main definitions

* `Shuffle.Layout`: the tables for an image
* `Shuffle.scramble?`, `Shuffle.unscramble?`: storing and restoring by guarded accesses

## Main results

* `Shuffle.noteEntries?_eq`: a table filled in place is the inverse of what fills it
* `Shuffle.overwrite?_flatMap`: overwriting a piece leaves the other pieces alone
* `Shuffle.scramble?_eq`, `Shuffle.unscramble?_eq`: no access is out of range
* `Shuffle.scramble_unscramble_exact`: storing and restoring are exact inverses
-/

namespace NovelChart.Shuffle

/-! ### Guarded accesses -/

/-- A table with one entry replaced; the table has to have the entry. -/
def replace? (table : List Nat) (i value : Nat) : Option (List Nat) :=
  if i < table.length then some (table.set i value) else none

/-- A difference; it must not be negative. -/
def minus? (a b : Nat) : Option Nat :=
  if b ≤ a then some (a - b) else none

/-- A slice of an image; the image has to reach that far. -/
def slice? (bytes : List UInt8) (start size : Nat) : Option (List UInt8) :=
  if start + size ≤ bytes.length then some ((bytes.drop start).take size) else none

/-- An image with a slice replaced; the image has to reach that far. -/
def overwrite? (bytes : List UInt8) (start : Nat) (part : List UInt8) : Option (List UInt8) :=
  if start + part.length ≤ bytes.length then
    some (bytes.take start ++ part ++ bytes.drop (start + part.length))
  else none

/-! ### Tables filled in place -/

/-- A fold that never gives up is a plain fold. -/
theorem foldlM_eq_some {α β : Type} {step : β → α → Option β} (next : β → α → β) {l : List α}
    (steps : ∀ b, ∀ a ∈ l, step b a = some (next b a)) (b : β) :
    l.foldlM step b = some (l.foldl next b) := by
  induction l generalizing b with
  | nil => rfl
  | cons a l ih =>
    rw [List.foldlM_cons, steps b a List.mem_cons_self]
    exact ih (fun b a there => steps b a (List.mem_cons_of_mem _ there)) _

/-- Draws like `drawAll` and notes the number of each draw under the value that it takes out. -/
def noteDraws? : Nat → List Nat → Generator → Nat → List Nat → Option (List Nat)
  | 0, _, _, _, table => some table
  | n + 1, values, g, next, table => do
    let (i, g) := if n = 0 then (0, g) else g.range 0 (n - 1)
    let value ← values[i]?
    let table ← replace? table value next
    noteDraws? n (values.eraseIdx i) g (next + 1) table

/-- Notes the number of each entry under the entry itself. -/
def noteEntries? : List Nat → Nat → List Nat → Option (List Nat)
  | [], _, table => some table
  | entry :: entries, next, table => do
    let table ← replace? table entry next
    noteEntries? entries (next + 1) table

/-- Every draw takes out a value, so the draws are noted in the order of drawing. -/
theorem noteDraws?_eq (n : Nat) (values : List Nat) (g : Generator) (next : Nat)
    (table : List Nat) (length : values.length = n) :
    noteDraws? n values g next table = noteEntries? (drawAll n values g) next table := by
  induction n generalizing values g next table with
  | zero => rfl
  | succ n ih =>
    rw [noteDraws?, drawAll]
    have inside := length ▸ drawn_lt n g
    generalize (if n = 0 then (0, g) else g.range 0 (n - 1)) = drawn at inside ⊢
    obtain ⟨i, g'⟩ := drawn
    have shorter : (values.eraseIdx i).length = n := by
      rw [List.length_eraseIdx_of_lt inside]
      omega
    simp only [List.getD_eq_getElem?_getD, List.getElem?_eq_getElem inside, Option.getD_some,
      Option.bind_eq_bind, Option.bind_some, noteEntries?, ih _ g' _ _ shorter]

/-- A table that is filled from distinct entries holds the number of each of them. -/
theorem noteEntries?_eq {entries : List Nat} (distinct : entries.Nodup) {next : Nat}
    {table : List Nat} (inside : ∀ k ∈ entries, k < table.length) :
    noteEntries? entries next table =
      some ((List.range table.length).map fun k =>
        if k ∈ entries then next + entries.idxOf k else table.getD k 0) := by
  induction entries generalizing next table with
  | nil =>
    have same : (List.range table.length).map (table.getD · 0) = table := by
      apply List.ext_getElem (by simp)
      intro k _ inside
      simp [List.getD_eq_getElem?_getD, inside]
    simp only [noteEntries?, List.not_mem_nil, if_false, same]
  | cons entry entries ih =>
    obtain ⟨fresh, distinct⟩ := List.nodup_cons.mp distinct
    have here := inside entry List.mem_cons_self
    have later : ∀ k ∈ entries, k < (table.set entry next).length := by
      intro k member
      rw [List.length_set]
      exact inside k (List.mem_cons_of_mem _ member)
    simp only [noteEntries?, replace?, if_pos here, Option.bind_eq_bind, Option.bind_some,
      ih distinct later, List.length_set, List.getD_eq_getElem?_getD]
    congr 1
    apply List.map_congr_left
    intro k _
    -- What is noted for the first entry is not noted again.
    by_cases eq : entry = k
    · subst eq
      simp [fresh, here]
    · simp only [List.mem_cons, Ne.symm eq, false_or, List.idxOf_cons_ne _ eq,
        List.getElem?_set_ne eq]
      split <;> omega

/-- The table filled from an order of all the numbers below a bound is the inverse of the order. -/
theorem noteEntries?_perm {order : List Nat} {count : Nat} (perm : order.Perm (List.range count)) :
    noteEntries? order 0 (List.replicate count 0) =
      some ((List.range count).map fun k => order.idxOf k) := by
  have inside : ∀ k ∈ order, k < (List.replicate count 0).length := by
    intro k member
    rw [List.length_replicate]
    exact List.mem_range.mp (perm.subset member)
  rw [noteEntries?_eq (perm.nodup_iff.mpr List.nodup_range) inside, List.length_replicate]
  congr 1
  apply List.map_congr_left
  intro k member
  rw [if_pos (perm.symm.subset member), Nat.zero_add]

/-- The draws fill the table of positions. -/
theorem noteDraws?_positions (count : Nat) (seed : UInt32) :
    noteDraws? count (List.range count) (Generator.ofSeed seed) 0 (List.replicate count 0) =
      some (positions count seed) := by
  rw [noteDraws?_eq _ _ _ _ _ List.length_range]
  exact noteEntries?_perm (drawOrder_perm count seed)

section Inverse

variable {order : List Nat} {count : Nat}

/-- The inverse of an order is an order of the same numbers. -/
theorem map_idxOf_perm (perm : order.Perm (List.range count)) :
    ((List.range count).map fun k => order.idxOf k).Perm (List.range count) := by
  have length := perm.length_eq.trans List.length_range
  have distinct := perm.nodup_iff.mpr List.nodup_range
  -- Read along the order itself, the places count upwards.
  have upwards : order.map (fun k => order.idxOf k) = List.range count := by
    apply List.ext_getElem (by simp [length])
    intro i inside _
    rw [List.length_map] at inside
    rw [List.getElem_map, List.getElem_range, distinct.idxOf_getElem i inside]
  exact (perm.symm.map _).trans (.of_eq upwards)

/-- The inverse of the inverse of an order is the order. -/
theorem map_idxOf_map_idxOf (perm : order.Perm (List.range count)) :
    (List.range count).map
      (fun i => ((List.range count).map fun k => order.idxOf k).idxOf i) = order := by
  have length := perm.length_eq.trans List.length_range
  have distinct := perm.nodup_iff.mpr List.nodup_range
  have distinct' := (map_idxOf_perm perm).nodup_iff.mpr List.nodup_range
  apply List.ext_getElem (by simp [length])
  intro i _ inside
  have below : order[i] < count := List.mem_range.mp (perm.subset (List.getElem_mem inside))
  have there := distinct'.idxOf_getElem order[i] (by simpa using below)
  simp only [List.getElem_map, List.getElem_range, distinct.idxOf_getElem i inside] at there ⊢
  exact there

end Inverse

/-! ### Layouts -/

/-- How an image is cut and reordered, with the tables that the copying looks up. -/
structure Layout where
  /-- The size of a full chunk. -/
  chunk : Nat
  /-- The length of the image. -/
  length : Nat
  /-- Where each plain chunk is stored. -/
  places : List Nat
  /-- The offset of each stored place. -/
  offsets : List Nat

/-- The size of one out of `count` chunks; the last one has to begin within the image. -/
def size? (chunk length count k : Nat) : Option Nat :=
  if k + 1 = count then minus? length (k * chunk) else some chunk

/-- The offsets of the places that hold the chunks of an order. -/
def offsets? (chunk length : Nat) (order : List Nat) : Option (List Nat) := do
  let (offsets, _) ← order.foldlM (fun (offsets, offset) k => do
      let size ← size? chunk length order.length k
      return (offsets ++ [offset], offset + size))
    (([], 0) : List Nat × Nat)
  return offsets

namespace Layout

/-- The size of a plain chunk. -/
def size? (l : Layout) (k : Nat) : Option Nat :=
  Shuffle.size? l.chunk l.length l.places.length k

/-- The tables for an image of a given length; the chunk size is taken to be positive. -/
def ofParams? (params : ScrambleParams) (length : Nat) : Option Layout := do
  let chunk := params.chunkSize.toInt.toNat
  let count := (length + chunk - 1) / chunk
  let g := Generator.ofSeed (params.seed ^^^ seedKey)
  let places ← noteDraws? count (List.range count) g 0 (List.replicate count 0)
  let order ← noteEntries? places 0 (List.replicate count 0)
  let offsets ← offsets? chunk length order
  return ⟨chunk, length, places, offsets⟩

/-- Copies a stored chunk behind those that are already restored. -/
def fetch? (l : Layout) (stored out : List UInt8) (place k : Nat) : Option (List UInt8) := do
  let start ← l.offsets[place]?
  let size ← l.size? k
  let part ← slice? stored start size
  return out ++ part

/-- Copies a plain chunk to its place. -/
def copy? (l : Layout) (plain out : List UInt8) (place k : Nat) : Option (List UInt8) := do
  let size ← l.size? k
  let start ← l.offsets[place]?
  let part ← slice? plain (k * l.chunk) size
  overwrite? out start part

/-- The stored image in its plain order. -/
def restore? (l : Layout) (stored : List UInt8) : Option (List UInt8) :=
  l.places.zipIdx.foldlM (fun out (place, k) => l.fetch? stored out place k) []

/-- The plain image in its stored order. -/
def store? (l : Layout) (plain : List UInt8) : Option (List UInt8) :=
  l.places.zipIdx.foldlM (fun out (place, k) => l.copy? plain out place k)
    (List.replicate plain.length 0)

end Layout

/-- The stored form of a plain image, by guarded accesses. -/
def scramble? (plain : List UInt8) (params : ScrambleParams) :
    Option (Except FormatError (List UInt8)) :=
  if params.chunkSize.toInt ≤ 0 then some (.error ⟨none, 0, .badScramble params.chunkSize⟩)
  else do
    let layout ← Layout.ofParams? params plain.length
    let stored ← layout.store? plain
    return .ok stored

/-- The plain form of a stored image that begins at an offset of its file, by guarded accesses. -/
def unscramble? (stored : List UInt8) (params : ScrambleParams) (offset : Nat) :
    Option (Except FormatError (List UInt8)) :=
  if params.chunkSize.toInt ≤ 0 then some (.error ⟨none, offset, .badScramble params.chunkSize⟩)
  else do
    let layout ← Layout.ofParams? params stored.length
    let plain ← layout.restore? stored
    return .ok plain

/-! ### Pieces in place -/

section Pieces

variable {keys : List Nat} {size : Nat → Nat} {k : Nat}

/-- A piece lies within the whole. -/
theorem pieceStart_add_le (member : k ∈ keys) :
    pieceStart keys size k + size k ≤ (keys.map size).sum := by
  induction keys with
  | nil => cases member
  | cons a keys ih =>
    rw [List.map_cons, List.sum_cons]
    by_cases eq : a = k
    · subst eq
      rw [pieceStart_cons_self]
      omega
    · have later := ih ((List.mem_cons.mp member).resolve_left (Ne.symm eq))
      rw [pieceStart_cons_of_ne eq]
      omega

/-- Overwriting one piece of a concatenation leaves the other pieces alone. -/
theorem overwrite?_flatMap (distinct : keys.Nodup) {part : Nat → List UInt8}
    (sized : ∀ k ∈ keys, (part k).length = size k) (member : k ∈ keys) {new : List UInt8}
    (length : new.length = size k) :
    overwrite? (keys.flatMap part) (pieceStart keys size k) new =
      some (keys.flatMap (Function.update part k new)) := by
  obtain ⟨before, after, rfl⟩ := List.append_of_mem member
  obtain ⟨_, distinctAfter, apart⟩ := List.nodup_append.mp distinct
  have notBefore : k ∉ before := fun there => apart k there k List.mem_cons_self rfl
  have notAfter : k ∉ after := (List.nodup_cons.mp distinctAfter).1
  have keep : ∀ {keys : List Nat}, k ∉ keys →
      keys.flatMap (Function.update part k new) = keys.flatMap part := by
    intro keys absent
    apply List.flatMap_congr
    intro a there
    apply Function.update_of_ne
    rintro rfl
    exact absent there
  -- The piece begins where the parts before it end, and it is as long as what replaces it.
  have sizes : before.map (fun a => (part a).length) = before.map size :=
    List.map_congr_left fun a there => sized a (List.mem_append_left _ there)
  have start : pieceStart (before ++ k :: after) size k = (before.flatMap part).length := by
    rw [pieceStart, List.idxOf_append_of_notMem notBefore, List.idxOf_cons_self, Nat.add_zero,
      List.take_left, List.length_flatMap, sizes]
  have same : new.length = (part k).length := length.trans (sized k member).symm
  rw [start, List.flatMap_append, List.flatMap_cons, List.flatMap_append, List.flatMap_cons,
    keep notBefore, keep notAfter, Function.update_self, overwrite?]
  rw [if_pos (by simp only [List.length_append]; omega), List.take_left, ← List.drop_drop,
    List.drop_left, same, List.drop_left, List.append_assoc]

end Pieces

/-! ### The layout of a plan -/

namespace Plan

variable {p : Plan} {k : Nat}

/-- The tables of a plan. -/
def layout (p : Plan) : Layout :=
  ⟨p.chunk, p.length, (List.range p.order.length).map fun k => p.order.idxOf k, p.offsets⟩

/-- A chunk lies within the plain image. -/
theorem Covers.plain_le (covers : p.Covers) (inside : k < p.order.length) :
    k * p.chunk + p.size k ≤ p.length := by
  rw [← pieceStart_range inside, ← covers.total]
  exact pieceStart_add_le (List.mem_range.mpr inside)

/-- A chunk lies within the stored image. -/
theorem Covers.stored_le (covers : p.Covers) (member : k ∈ p.order) :
    pieceStart p.order p.size k + p.size k ≤ p.length := by
  rw [← covers.total_order]
  exact pieceStart_add_le member

theorem Covers.size?_eq (covers : p.Covers) (inside : k < p.order.length) :
    size? p.chunk p.length p.order.length k = some (p.size k) := by
  have fits := Nat.le_of_add_right_le (covers.plain_le inside)
  simp only [size?, minus?, if_pos fits, size]
  split <;> rfl

theorem Covers.layout_size?_eq (covers : p.Covers) (inside : k < p.order.length) :
    p.layout.size? k = some (p.size k) := by
  simpa [layout, Layout.size?] using covers.size?_eq inside

theorem Covers.offsets?_eq (covers : p.Covers) :
    offsets? p.chunk p.length p.order = some p.offsets := by
  rw [offsets?, foldlM_eq_some fun (offsets, offset) k => (offsets ++ [offset], offset + p.size k)]
  · rfl
  · intro (offsets, offset) k member
    rw [covers.size?_eq (List.mem_range.mp (covers.perm.subset member))]
    rfl

/-- The offset of a chunk's place is where its piece begins. -/
theorem getElem?_offsets (member : k ∈ p.order) :
    p.offsets[p.order.idxOf k]? = some (pieceStart p.order p.size k) := by
  have inside := List.idxOf_lt_length_of_mem member
  have offset := offsets_getD inside
  rw [List.getD_eq_getElem?_getD] at offset
  have here : p.order.idxOf k < p.offsets.length := by rwa [length_offsets]
  rw [List.getElem?_eq_getElem here] at offset ⊢
  exact congrArg some offset

/-- The tables that are filled in place are those of the plan. -/
theorem ofParams?_eq {params : ScrambleParams} {length offset : Nat}
    (planned : plan params length offset = .ok p) :
    Layout.ofParams? params length = some p.layout := by
  obtain ⟨covers, _⟩ := covers_of_plan planned
  simp only [plan, refuse_eq_ok] at planned
  obtain ⟨_, eq⟩ := planned
  cases eq
  generalize counted : (length + params.chunkSize.toInt.toNat - 1) / params.chunkSize.toInt.toNat =
    count at covers ⊢
  have perm := drawOrder_perm count (params.seed ^^^ seedKey)
  have total := perm.length_eq.trans List.length_range
  -- Inverting the positions gives the order of drawing back.
  have inverted : noteEntries? (positions count (params.seed ^^^ seedKey)) 0
      (List.replicate count 0) = some (drawOrder count (params.seed ^^^ seedKey)) := by
    have inverse := noteEntries?_perm (map_idxOf_perm perm)
    rwa [map_idxOf_map_idxOf perm] at inverse
  simp only [Layout.ofParams?, counted, noteDraws?_positions, Option.bind_eq_bind,
    Option.bind_some, inverted, covers.offsets?_eq, layout, total]
  rfl

/-- The places of a plan, each with its chunk. -/
theorem zipIdx_places (p : Plan) :
    p.layout.places.zipIdx = (List.range p.order.length).map fun k => (p.order.idxOf k, k) := by
  apply List.ext_getElem (by simp [layout])
  intro i _ _
  simp [layout]

/-- A chunk is found at its place in the stored image. -/
theorem Covers.fetch?_eq (covers : p.Covers) {stored : List UInt8}
    (length : stored.length = p.length) (inside : k < p.order.length) (out : List UInt8) :
    p.layout.fetch? stored out (p.order.idxOf k) k =
      some (out ++ p.storedChunk p.offsets stored k) := by
  have member := covers.perm.symm.subset (List.mem_range.mpr inside)
  have start : p.layout.offsets[p.order.idxOf k]? = _ := getElem?_offsets member
  rw [storedChunk_eq_piece stored member]
  simp only [Layout.fetch?, start, covers.layout_size?_eq inside, slice?, length,
    if_pos (covers.stored_le member), Option.bind_eq_bind, Option.bind_some]
  rfl

theorem Covers.restore?_eq (covers : p.Covers) {stored : List UInt8}
    (length : stored.length = p.length) :
    p.layout.restore? stored = some (p.restore stored) := by
  rw [Layout.restore?, zipIdx_places, List.foldlM_map, foldlM_eq_some
    fun out k => out ++ p.storedChunk p.offsets stored k, restore, List.flatMap_eq_foldl]
  intro out k member
  exact covers.fetch?_eq length (List.mem_range.mp member) out

theorem length_plainChunk (covers : p.Covers) {plain : List UInt8}
    (length : plain.length = p.length) (inside : k < p.order.length) :
    (p.plainChunk plain k).length = p.size k := by
  rw [plainChunk_eq_piece plain inside]
  exact length_piece (length.trans covers.total.symm) (List.mem_range.mpr inside)

/-- A chunk is copied to its place, and the other places stay as they are. -/
theorem Covers.copy?_eq (covers : p.Covers) {plain : List UInt8}
    (length : plain.length = p.length) (inside : k < p.order.length) {part : Nat → List UInt8}
    (sized : ∀ k ∈ p.order, (part k).length = p.size k) :
    p.layout.copy? plain (p.order.flatMap part) (p.order.idxOf k) k =
      some (p.order.flatMap (Function.update part k (p.plainChunk plain k))) := by
  have member := covers.perm.symm.subset (List.mem_range.mpr inside)
  have start : p.layout.offsets[p.order.idxOf k]? = _ := getElem?_offsets member
  have cut : slice? plain (k * p.layout.chunk) (p.size k) = some (p.plainChunk plain k) := by
    rw [slice?, length]
    exact if_pos (covers.plain_le inside)
  have distinct := covers.perm.nodup_iff.mpr List.nodup_range
  simp only [Layout.copy?, covers.layout_size?_eq inside, start, cut, Option.bind_eq_bind,
    Option.bind_some]
  exact overwrite?_flatMap distinct sized member (length_plainChunk covers length inside)

/-- Copying chunk after chunk fills just their places. -/
theorem Covers.foldlM_copy? (covers : p.Covers) {plain : List UInt8}
    (length : plain.length = p.length) {chunks : List Nat}
    (inside : ∀ k ∈ chunks, k < p.order.length) {part : Nat → List UInt8}
    (sized : ∀ k ∈ p.order, (part k).length = p.size k) :
    chunks.foldlM (fun out k => p.layout.copy? plain out (p.order.idxOf k) k)
        (p.order.flatMap part) =
      some (p.order.flatMap fun k => if k ∈ chunks then p.plainChunk plain k else part k) := by
  induction chunks generalizing part with
  | nil => simp
  | cons k chunks ih =>
    have here := inside k List.mem_cons_self
    have sized' : ∀ a ∈ p.order,
        (Function.update part k (p.plainChunk plain k) a).length = p.size a := by
      intro a member
      by_cases eq : a = k
      · subst eq
        rw [Function.update_self, length_plainChunk covers length here]
      · rw [Function.update_of_ne eq, sized a member]
    rw [List.foldlM_cons, covers.copy?_eq length here sized]
    refine (ih (fun a there => inside a (List.mem_cons_of_mem _ there)) sized').trans ?_
    -- What was copied first is not overwritten, except by the same chunk.
    congr 2
    funext a
    by_cases eq : a = k
    · subst eq
      simp
    · simp [eq]

theorem Covers.store?_eq (covers : p.Covers) {plain : List UInt8}
    (length : plain.length = p.length) :
    p.layout.store? plain = some (p.store plain) := by
  have distinct := covers.perm.nodup_iff.mpr List.nodup_range
  -- The blank image consists of blank pieces, and each of them is overwritten.
  obtain ⟨part, sized, start⟩ : ∃ part : Nat → List UInt8,
      (∀ k ∈ p.order, (part k).length = p.size k) ∧
        List.replicate plain.length 0 = p.order.flatMap part := by
    have total : (List.replicate plain.length (0 : UInt8)).length = (p.order.map p.size).sum := by
      rw [List.length_replicate, covers.total_order, length]
    exact ⟨_, fun k member => length_piece total member, (flatMap_piece distinct total).symm⟩
  rw [Layout.store?, zipIdx_places, List.foldlM_map, start,
    covers.foldlM_copy? length (fun k member => List.mem_range.mp member) sized, store]
  congr 1
  apply List.flatMap_congr
  intro k member
  exact if_pos (covers.perm.subset member)

end Plan

/-! ### Images -/

variable {params : ScrambleParams}

theorem exists_plan (positive : 0 < params.chunkSize.toInt) (length offset : Nat) :
    ∃ p, plan params length offset = .ok p :=
  ⟨_, if_neg (Int.not_le.mpr positive)⟩

/-- Storing by guarded accesses never gives up. -/
theorem scramble?_eq (plain : List UInt8) (params : ScrambleParams) :
    scramble? plain params = some (scramble plain params) := by
  by_cases bad : params.chunkSize.toInt ≤ 0
  · rw [scramble?, scramble, plan, if_pos bad, if_pos bad]
    rfl
  · obtain ⟨p, planned⟩ := exists_plan (Int.not_le.mp bad) plain.length 0
    obtain ⟨covers, length⟩ := Plan.covers_of_plan planned
    rw [scramble?, if_neg bad, Plan.ofParams?_eq planned, scramble, planned]
    simp only [Option.bind_eq_bind, Option.bind_some, covers.store?_eq length.symm]
    rfl

/-- Restoring by guarded accesses never gives up. -/
theorem unscramble?_eq (stored : List UInt8) (params : ScrambleParams) (offset : Nat) :
    unscramble? stored params offset = some (unscramble stored params offset) := by
  by_cases bad : params.chunkSize.toInt ≤ 0
  · rw [unscramble?, unscramble, plan, if_pos bad, if_pos bad]
    rfl
  · obtain ⟨p, planned⟩ := exists_plan (Int.not_le.mp bad) stored.length offset
    obtain ⟨covers, length⟩ := Plan.covers_of_plan planned
    rw [unscramble?, if_neg bad, Plan.ofParams?_eq planned, unscramble, planned]
    simp only [Option.bind_eq_bind, Option.bind_some, covers.restore?_eq length.symm]
    rfl

/-- Storing and restoring refuse a chunk size that is not positive. With any other, each of them
keeps the length and undoes the other. No access on the way is out of range. -/
theorem scramble_unscramble_exact (x : List UInt8) (params : ScrambleParams) (offset : Nat) :
    (params.chunkSize.toInt ≤ 0 →
      scramble x params = .error ⟨none, 0, .badScramble params.chunkSize⟩ ∧
      unscramble x params offset = .error ⟨none, offset, .badScramble params.chunkSize⟩) ∧
    (0 < params.chunkSize.toInt → ∃ y z,
      scramble x params = .ok y ∧ y.length = x.length ∧ unscramble y params offset = .ok x ∧
      unscramble x params offset = .ok z ∧ z.length = x.length ∧ scramble z params = .ok x) ∧
    scramble? x params = some (scramble x params) ∧
    unscramble? x params offset = some (unscramble x params offset) := by
  refine ⟨?refused, ?inverse, scramble?_eq x params, unscramble?_eq x params offset⟩
  case refused =>
    intro bad
    rw [scramble, unscramble, plan, plan, if_pos bad, if_pos bad]
    exact ⟨rfl, rfl⟩
  case inverse =>
    intro positive
    obtain ⟨p, planned⟩ := exists_plan positive x.length 0
    have kept : scramble x params = .ok (p.store x) := by
      rw [scramble, planned]
      rfl
    have restored : unscramble x params offset = .ok (p.restore x) := by
      rw [unscramble, Plan.plan_offset offset planned]
      rfl
    obtain ⟨undone, same⟩ := unscramble_of_scramble kept offset
    obtain ⟨redone, same'⟩ := scramble_of_unscramble restored
    exact ⟨_, _, kept, same, undone, restored, same', redone⟩

/-- Seven bytes in chunks of two, of which the last one is short, change places in a circle; a
negative chunk size is refused. -/
theorem scramble_unscramble_exact_seven :
    scramble [1, 2, 3, 4, 5, 6, 7] ⟨2, 1⟩ = .ok [3, 4, 5, 6, 1, 2, 7] ∧
      unscramble [3, 4, 5, 6, 1, 2, 7] ⟨2, 1⟩ 13 = .ok [1, 2, 3, 4, 5, 6, 7] ∧
      scramble [1, 2, 3, 4, 5, 6, 7] ⟨-2, 1⟩ = .error ⟨none, 0, .badScramble (-2)⟩ := by
  have kept : scramble [1, 2, 3, 4, 5, 6, 7] ⟨2, 1⟩ = .ok [3, 4, 5, 6, 1, 2, 7] := by
    decide +kernel
  obtain ⟨y, _, kept', _, restored, _⟩ :=
    (scramble_unscramble_exact [1, 2, 3, 4, 5, 6, 7] ⟨2, 1⟩ 13).2.1 (by decide)
  cases kept.symm.trans kept'
  have refused := (scramble_unscramble_exact [1, 2, 3, 4, 5, 6, 7] ⟨-2, 1⟩ 0).1 (by decide)
  exact ⟨kept, restored, refused.1⟩

end NovelChart.Shuffle
