import Mathlib.Data.List.Nodup
import NovelChart.Proofs.Filling
import NovelChart.Proofs.Frame
import NovelChart.Proofs.ReadBack

/-!
# Charts with new texts for their segments

A batch of new texts is put into a chart from the last segment to the first. The outcome can be said
at once, command by command: a text block is filled, and everything else is as before. Each edit
finds its segment where it was, since all that was replaced so far lies behind it.

## Main definitions

* `Chart.HasText`: a line has a segment with a number and a text
* `Chart.reworded`: a chart with new texts for some segments
* `TextEdit`: a segment, its text and its new text

## Main results

* `Chart.mem_texts`, `Chart.pairwise_texts`: the segments of a chart, in ascending order
* `Chart.replaceText_reworded_of_hasText`: one edit in front of all others
* `Chart.replaceTexts_eq`: a batch of edits rewords the chart
* `Chart.blockTexts_fill`: the texts of a filled block
-/

namespace NovelChart

/-! ### Segments -/

/-- A block with new texts for some of its segments. -/
def TextBlock.fill (f : Nat → Option String) (block : TextBlock) : TextBlock :=
  { block with tokens := Segment.fill f block.tokens }

namespace Chart

/-- The chart with new texts for some segments, which are given by line and number. -/
def reworded (c : Chart) (f : Nat → Nat → Option String) : Chart :=
  { c with commands := c.commands.mapIdx fun line command =>
      command.mapText (TextBlock.fill (f line)) }

/-- There is a segment with a number on a line, and it has a text. -/
def HasText (c : Chart) (line index : Nat) (text : String) : Prop :=
  ∃ block seg, c.block line = .ok block ∧ (Segment.ofTokens block.tokens)[index]? = some seg ∧
    Segment.text? block.tokens seg = some text

variable {c : Chart} {name text : String} {id : TextId} {line index : Nat} {block : TextBlock}
  {f : Nat → Nat → Option String}

theorem mem_blockTexts : (index, text) ∈ blockTexts block ↔
    ∃ seg, (Segment.ofTokens block.tokens)[index]? = some seg ∧
      Segment.text? block.tokens seg = some text := by
  rw [blockTexts, List.mem_filterMap]
  constructor
  · rintro ⟨⟨seg, i⟩, member, made⟩
    obtain ⟨found, here, same⟩ := Option.map_eq_some_iff.mp made
    cases same
    exact ⟨seg, List.mem_zipIdx_iff_getElem?.mp member, here⟩
  · rintro ⟨seg, found, here⟩
    exact ⟨(seg, index), List.mem_zipIdx_iff_getElem?.mpr found,
      Option.map_eq_some_iff.mpr ⟨text, here, rfl⟩⟩

/-- The segments of a chart are listed under its name. -/
theorem mem_texts : (id, text) ∈ c.texts name ↔
    id.name = name ∧ c.HasText id.line id.index text := by
  rw [texts, List.mem_flatMap]
  constructor
  · rintro ⟨⟨command, line⟩, inside, member⟩
    dsimp only at member
    split at member
    · next block carries =>
      obtain ⟨⟨index, _⟩, listed, same⟩ := List.mem_map.mp member
      cases same
      obtain ⟨seg, found, here⟩ := mem_blockTexts.mp listed
      exact ⟨rfl, block, seg,
        block_eq_ok.mpr ⟨command, List.mem_zipIdx_iff_getElem?.mp inside, carries⟩, found, here⟩
    · cases member
  · rintro ⟨rfl, block, seg, there, found, here⟩
    obtain ⟨command, inside, carries⟩ := block_eq_ok.mp there
    refine ⟨(command, id.line), List.mem_zipIdx_iff_getElem?.mpr inside, ?_⟩
    dsimp only
    rw [carries]
    exact List.mem_map.mpr ⟨(id.index, text), mem_blockTexts.mpr ⟨seg, found, here⟩, rfl⟩

/-- The segments of a chart that was read have small numbers. -/
theorem HasText.small {e : Encoding} {bytes : List UInt8} (read : Chart.ofBytes e bytes = .ok c)
    (has : c.HasText line index text) :
    line < Text.positionLimit ∧ index < Text.positionLimit := by
  obtain ⟨block, seg, there, found, _⟩ := has
  obtain ⟨canon, _, body, small, written⟩ := block_canonical read there
  obtain ⟨inside, _⟩ := List.getElem?_eq_some_iff.mp found
  have few := TextBlock.length_segments_le written canon
  exact ⟨line_lt read there, ((inside.trans_le few).trans small).trans (by decide)⟩

end Chart

/-- An identifier stands before another one: on an earlier line, or earlier on the same line. -/
def TextId.Before (a b : TextId) : Prop :=
  a.line < b.line ∨ (a.line = b.line ∧ a.index < b.index)

theorem TextId.Before.ne {a b : TextId} (before : a.Before b) : a ≠ b := by
  rintro rfl
  rcases before with less | ⟨_, less⟩
  · exact Nat.lt_irrefl _ less
  · exact Nat.lt_irrefl _ less

namespace Chart

variable {c : Chart} {name text : String} {id : TextId} {line index : Nat} {block : TextBlock}
  {f : Nat → Nat → Option String}

/-- The segments of a chart are listed in ascending order. -/
theorem pairwise_texts (c : Chart) (name : String) :
    (c.texts name).Pairwise fun x y => x.1.Before y.1 := by
  rw [texts, List.pairwise_flatMap]
  constructor
  · rintro ⟨command, line⟩ _
    dsimp only
    split
    · rw [List.pairwise_map, blockTexts, List.pairwise_filterMap]
      refine (pairwise_zipIdx _ 0).imp ?_
      rintro ⟨seg, i⟩ ⟨seg', j⟩ less ⟨_, _⟩ made ⟨_, _⟩ made'
      obtain ⟨_, _, same⟩ := Option.map_eq_some_iff.mp made
      obtain ⟨_, _, same'⟩ := Option.map_eq_some_iff.mp made'
      cases same
      cases same'
      exact .inr ⟨rfl, less⟩
    · exact .nil
  · refine (pairwise_zipIdx _ 0).imp ?_
    rintro ⟨command, line⟩ ⟨command', line'⟩ less x member y member'
    dsimp only at member member'
    split at member
    · split at member'
      · obtain ⟨_, _, rfl⟩ := List.mem_map.mp member
        obtain ⟨_, _, rfl⟩ := List.mem_map.mp member'
        exact .inl less
      · cases member'
    · cases member

/-! ### Edits of segments -/

theorem getElem?_reworded (c : Chart) (f : Nat → Nat → Option String) (line : Nat) :
    (c.reworded f).commands[line]? =
      c.commands[line]?.map fun command => command.mapText (TextBlock.fill (f line)) :=
  c.getElem?_mapBlocks (fun line => TextBlock.fill (f line)) line

/-- A line without new texts stays. -/
theorem getElem?_reworded_none (unchanged : ∀ index, f line index = none) :
    (c.reworded f).commands[line]? = c.commands[line]? := by
  have fills : TextBlock.fill (f line) = id := by
    funext block
    rw [funext unchanged, TextBlock.fill, Segment.fill_none]
    rfl
  rw [getElem?_reworded, fills, funext Command.mapText_id]
  exact Option.map_id'

theorem reworded_none (c : Chart) : c.reworded (fun _ _ => none) = c :=
  eq_of_lines fun _ => getElem?_reworded_none fun _ => rfl

theorem block_reworded (there : c.block line = .ok block) :
    (c.reworded f).block line = .ok (block.fill (f line)) :=
  block_mapBlocks there fun line => TextBlock.fill (f line)

theorem zipIdx_texts (block : TextBlock) : (Segment.texts block.tokens).zipIdx =
    (blockTexts block).map fun (index, text) => (some text, index) := by
  rw [Segment.texts, List.zipIdx_map, blockTexts, List.map_filterMap, ← List.filterMap_eq_map]
  apply List.filterMap_congr
  rintro ⟨seg, index⟩ member
  have there : Segment.text? block.tokens seg ∈ Segment.texts block.tokens :=
    List.mem_map_of_mem (List.fst_mem_of_mem_zipIdx member)
  obtain ⟨text, here⟩ := Option.isSome_iff_exists.mp (Segment.isSome_texts block.tokens _ there)
  simp [here]

theorem map_some_blockTexts (block : TextBlock) :
    ((blockTexts block).map Prod.snd).map some = Segment.texts block.tokens := by
  rw [← List.zipIdx_map_fst 0 (Segment.texts block.tokens), zipIdx_texts, List.map_map,
    List.map_map]
  rfl

/-- The texts of a filled block. -/
theorem blockTexts_fill (f : Nat → Option String) (block : TextBlock) :
    (blockTexts (block.fill f)).map Prod.snd =
      (blockTexts block).flatMap fun (index, text) => Text.renewed text (f index) := by
  refine List.map_injective_iff.mpr (fun _ _ => Option.some.inj) ?_
  rw [map_some_blockTexts, TextBlock.fill, Segment.texts_fill, zipIdx_texts, List.flatMap_map,
    List.map_flatMap]
  congr 1
  funext x
  exact Segment.newTexts_some (f x.1) x.2

/-- A text that is new for a segment with an old text. -/
def newText? (old new : String) : Option String :=
  if new = "" ∨ new = old then none else some new

/-- A reworded chart with another block is reworded on that line. -/
theorem setBlock_reworded {f' : Nat → Option String} (there : c.block line = .ok block) :
    (c.reworded f).setBlock line (block.fill f') = c.reworded (Function.update f line f') := by
  obtain ⟨command, found, carries⟩ := block_eq_ok.mp there
  apply eq_of_lines
  intro i
  rw [List.getElem?_modify, getElem?_reworded, List.getElem?_mapIdx]
  by_cases here : line = i
  · subst here
    simp only [found, Option.map_eq_map, Option.map_some, if_true, Function.update_self]
    rw [Command.mapText_mapText, Command.mapText_congr]
    intro other same
    rw [carries] at same
    cases same
    rfl
  · rw [Function.update_of_ne (Ne.symm here)]
    simp only [here, if_false, Option.map_eq_map, Option.map_map]
    rfl

/-- One edit, in front of all that were made. A text that is there already changes nothing. -/
theorem replaceText_reworded_of_hasText {new : String} (has : c.HasText id.line id.index text)
    (skipped : ∀ j ≤ id.index, f id.line j = none) (encodable : c.encoding.check new = .ok ()) :
    (c.reworded f).replaceText id new = .ok (c.reworded (Function.update f id.line
      (Function.update (f id.line) id.index (if new = text then none else some new)))) := by
  obtain ⟨block, seg, there, found, here⟩ := has
  obtain ⟨found', here'⟩ := Segment.getElem?_fill skipped found
  simp only [replaceText, bind_eq_ok]
  refine ⟨(), ?_, block.fill (f id.line), block_reworded there, ?_⟩
  · rw [checkText, mapError_eq_ok]
    exact encodable
  · rw [TextBlock.fill, found']
    dsimp only
    rw [here', here]
    by_cases same : new = text
    · have kept : Function.update (f id.line) id.index none = f id.line := by
        rw [Function.update_eq_self_iff, skipped id.index le_rfl]
      rw [if_pos (by rw [same]), if_pos same, kept, Function.update_eq_self]
      rfl
    · rw [if_neg (by simpa [eq_comm] using same), if_neg same, ← setBlock_reworded there,
        TextBlock.fill, Segment.fill_update skipped found]
      rfl

/-- One edit that is asked for, in front of all that were made. -/
theorem replaceText_reworded {new : String} (has : c.HasText id.line id.index text)
    (skipped : ∀ j ≤ id.index, f id.line j = none) (encodable : c.encoding.check new = .ok ())
    (filled : new ≠ "") : (c.reworded f).replaceText id new = .ok (c.reworded
      (Function.update f id.line (Function.update (f id.line) id.index (newText? text new)))) := by
  rw [replaceText_reworded_of_hasText has skipped encodable, newText?]
  simp only [filled, false_or]

end Chart

theorem update_place {α : Type} (g : Nat → Nat → α) (line index : Nat) (new : α) (i j : Nat) :
    Function.update g line (Function.update (g line) index new) i j =
      if i = line ∧ j = index then new else g i j := by
  by_cases sameLine : i = line
  · subst sameLine
    rw [Function.update_self, Function.update_apply]
    simp only [true_and]
  · rw [Function.update_of_ne sameLine, if_neg fun both => sameLine both.1]

/-- A segment with its text, and the text that is to replace it. An empty text replaces nothing. -/
structure TextEdit where
  id : TextId
  old : String
  new : String

namespace TextEdit

/-- The edits that replace something, as they are asked of a chart. -/
def requests (edits : List TextEdit) : List (TextId × String) :=
  (edits.filter fun x => x.new ≠ "").map fun x => (x.id, x.new)

/-- The new texts that edits bring to the segments of a chart. -/
def rewording (name : String) (edits : List TextEdit) (line index : Nat) : Option String :=
  (edits.find? fun x => x.id = ⟨name, line, index⟩).bind fun x => Chart.newText? x.old x.new

variable {name : String} {edits : List TextEdit} {x : TextEdit}

theorem requests_cons (filled : x.new ≠ "") :
    requests (x :: edits) = (x.id, x.new) :: requests edits := by
  rw [requests, List.filter_cons_of_pos (by simpa using filled), List.map_cons, requests]

theorem requests_cons_empty (empty : x.new = "") : requests (x :: edits) = requests edits := by
  rw [requests, List.filter_cons_of_neg (by simpa using empty), requests]

theorem rewording_cons (named : x.id.name = name) : rewording name (x :: edits) =
    Function.update (rewording name edits) x.id.line
      (Function.update (rewording name edits x.id.line) x.id.index
        (Chart.newText? x.old x.new)) := by
  obtain ⟨⟨_, line, index⟩, old, new⟩ := x
  subst named
  funext i j
  rw [update_place, rewording, List.find?_cons]
  by_cases here : i = line ∧ j = index
  · obtain ⟨rfl, rfl⟩ := here
    simp
  · have other : ¬(line = i ∧ index = j) := fun both => here ⟨both.1.symm, both.2.symm⟩
    simp [other, here, rewording]

/-- Edits behind a segment bring nothing to it, nor to those in front of it. -/
theorem rewording_before (behind : ∀ y ∈ edits, x.id.Before y.id) {j : Nat} (low : j ≤ x.id.index) :
    rewording name edits x.id.line j = none := by
  have absent : edits.find? (fun y => decide (y.id = ⟨name, x.id.line, j⟩)) = none := by
    rw [List.find?_eq_none]
    intro y member same
    rw [decide_eq_true_iff] at same
    rcases behind y member with less | ⟨_, less⟩
    · rw [same] at less
      exact Nat.lt_irrefl _ less
    · rw [same] at less
      exact Nat.lt_irrefl _ (Nat.lt_of_lt_of_le less low)
  rw [rewording, absent, Option.bind_none]

end TextEdit

namespace Chart

variable {c : Chart} {name : String} {edits : List TextEdit}

theorem replaceInOrder_append (xs ys : List (TextId × String)) {c c' : Chart}
    (done : replaceInOrder xs c = (.ok (), c')) :
    replaceInOrder (xs ++ ys) c = replaceInOrder ys c' := by
  induction xs generalizing c with
  | nil =>
    cases done
    rfl
  | cons x xs ih =>
    obtain ⟨id, text⟩ := x
    rw [replaceInOrder] at done
    rw [List.cons_append, replaceInOrder]
    split at done
    · exact ih done
    · cases done

/-- Edits in ascending order, made from the last to the first, reword the chart. -/
theorem replaceInOrder_reverse (ascending : edits.Pairwise fun x y => x.id.Before y.id)
    (named : ∀ x ∈ edits, x.id.name = name)
    (has : ∀ x ∈ edits, c.HasText x.id.line x.id.index x.old)
    (encodable : ∀ x ∈ edits, c.encoding.check x.new = .ok ()) :
    replaceInOrder (TextEdit.requests edits).reverse c =
      (.ok (), c.reworded (TextEdit.rewording name edits)) := by
  induction edits with
  | nil => exact congrArg (Prod.mk (Except.ok ())) (reworded_none c).symm
  | cons x edits ih =>
    obtain ⟨behind, ascending⟩ := List.pairwise_cons.mp ascending
    obtain ⟨named₁, named⟩ := List.forall_mem_cons.mp named
    obtain ⟨has₁, has⟩ := List.forall_mem_cons.mp has
    obtain ⟨encodable₁, encodable⟩ := List.forall_mem_cons.mp encodable
    have skipped : ∀ j ≤ x.id.index, TextEdit.rewording name edits x.id.line j = none :=
      fun j low => TextEdit.rewording_before behind low
    have done := ih ascending named has encodable
    rw [TextEdit.rewording_cons named₁]
    by_cases empty : x.new = ""
    · -- Nothing is asked for.
      have kept : Function.update (TextEdit.rewording name edits x.id.line) x.id.index none =
          TextEdit.rewording name edits x.id.line := by
        rw [Function.update_eq_self_iff, skipped x.id.index le_rfl]
      rw [newText?, if_pos (.inl empty), kept, Function.update_eq_self, ← done,
        TextEdit.requests_cons_empty empty]
    · rw [TextEdit.requests_cons empty, List.reverse_cons, replaceInOrder_append _ _ done,
        replaceInOrder, replaceText_reworded has₁ skipped encodable₁ empty]
      rfl

theorem notBefore_iff {x y : TextId × String} : notBefore x y = true ↔
    y.1.line < x.1.line ∨ (x.1.line = y.1.line ∧ y.1.index ≤ x.1.index) := by
  simp [notBefore]

theorem notBefore_trans (x y z : TextId × String) (first : notBefore x y = true)
    (second : notBefore y z = true) : notBefore x z = true := by
  rw [notBefore_iff] at first second ⊢
  omega

theorem notBefore_total (x y : TextId × String) : (notBefore x y || notBefore y x) = true := by
  rw [Bool.or_eq_true, notBefore_iff, notBefore_iff]
  omega

theorem sorted_mergeSort (xs : List (TextId × String)) :
    (xs.mergeSort notBefore).Pairwise fun x y => notBefore x y = true :=
  List.pairwise_mergeSort notBefore_trans notBefore_total xs

/-- Sorting edits in ascending order turns them around. -/
theorem mergeSort_ascending {xs : List (TextId × String)}
    (ascending : xs.Pairwise fun x y => x.1.Before y.1) :
    xs.mergeSort notBefore = xs.reverse := by
  have descending : xs.reverse.Pairwise fun x y => notBefore x y = true := by
    refine List.pairwise_reverse.mpr (ascending.imp fun before => notBefore_iff.mpr ?_)
    rcases before with less | ⟨same, less⟩
    · exact .inl less
    · exact .inr ⟨same.symm, less.le⟩
  have distinct : (xs.map fun x => (x.1.line, x.1.index)).Nodup := by
    refine List.pairwise_map.mpr (ascending.imp fun before same => ?_)
    obtain ⟨line, index⟩ := Prod.mk.inj same
    rw [TextId.Before] at before
    omega
  refine List.Perm.eq_of_pairwise ?_ (sorted_mergeSort xs) descending
    ((List.mergeSort_perm xs notBefore).trans (List.reverse_perm xs).symm)
  intro x y inside inside' before before'
  rw [List.mem_mergeSort] at inside
  rw [List.mem_reverse] at inside'
  -- Edits that may each run before the other are at one place.
  rw [notBefore_iff] at before before'
  exact List.inj_on_of_nodup_map distinct inside inside' (Prod.ext (by omega) (by omega))

/-- Edits in ascending order reword the chart, and are counted. -/
theorem replaceTexts_eq (ascending : edits.Pairwise fun x y => x.id.Before y.id)
    (named : ∀ x ∈ edits, x.id.name = name)
    (has : ∀ x ∈ edits, c.HasText x.id.line x.id.index x.old)
    (encodable : ∀ x ∈ edits, c.encoding.check x.new = .ok ()) :
    c.replaceTexts (TextEdit.requests edits) =
      (.ok (TextEdit.requests edits).length, c.reworded (TextEdit.rewording name edits)) := by
  have ascending' : (TextEdit.requests edits).Pairwise fun x y => x.1.Before y.1 := by
    rw [TextEdit.requests, List.pairwise_map]
    exact ascending.filter _
  rw [replaceTexts, mergeSort_ascending ascending',
    replaceInOrder_reverse ascending named has encodable]
  rfl

end Chart

end NovelChart
