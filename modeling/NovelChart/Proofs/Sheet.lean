import NovelChart.Proofs.Menu

/-!
# Sheets that are filled in

A sheet that was made from a chart lists every segment and every choice once, with the wording that
the chart has. Whatever replacements are filled in, applying the sheet skips none of them: each
identifier is read back, leads to the wording that the sheet holds, and is met where it was.

## Main definitions

* `Sheet.erased`: a sheet without its replacements
* `Sheet.newText?`, `Sheet.newChoice?`: the new text that a sheet brings to a segment or a choice
* `Sheet.filled`: a chart with everything that a sheet brings

## Main results

* `Sheet.edits_eq`, `Sheet.applyChoices_eq`: no entry is skipped
* `Sheet.apply_eq`: applying a sheet that was filled in
* `Sheet.apply_filled`: what the chart is then
-/

namespace NovelChart

namespace Sheet

/-- The sheet without its replacements. -/
def erased (s : Sheet) : Sheet :=
  { s with
    texts := s.texts.map fun entry => { entry with replacement := "" }
    choices := s.choices.map fun entry => { entry with replacement := "" } }

/-- The replacements of a sheet, empty ones included. -/
def replacements (s : Sheet) : List String :=
  s.texts.map TextEntry.replacement ++ s.choices.map ChoiceEntry.replacement

/-- The new text for the segment at a place: its replacement, unless that is empty or the
wording. -/
def newText? (s : Sheet) (line index : Nat) : Option String :=
  (s.texts.find? fun entry => entry.id = (TextId.mk s.chart line index).text).bind fun entry =>
    Chart.newText? entry.wording entry.replacement

/-- The new text for the choice at a place: its replacement, unless that is empty. -/
def newChoice? (entries : List ChoiceEntry) (line index : Nat) : Option String :=
  (entries.find? fun entry => entry.line = line ∧ entry.index = index).bind fun entry =>
    if entry.replacement = "" then none else some entry.replacement

/-- The chart with everything that the sheet brings. -/
def filled (s : Sheet) (c : Chart) : Chart :=
  (c.reworded s.newText?).rechosen (newChoice? s.choices)

/-! ### Segments -/

/-- The entry of an edit. -/
def entry (x : TextEdit) : TextEntry :=
  ⟨x.id.text, x.old, x.new⟩

variable {name : String} {current : List (TextId × String)} {items : List TextEdit}

/-- No edit is skipped if every segment has the wording of its entry. -/
theorem edits_eq (named : ∀ x ∈ items, x.id.name = name)
    (readable : ∀ x ∈ items, TextId.ofText x.id.text = .ok x.id)
    (fresh : ∀ x ∈ items, current.lookup x.id = some x.old) :
    edits name current (items.map entry) = ([], .ok (TextEdit.requests items)) := by
  induction items with
  | nil => rfl
  | cons x items ih =>
    obtain ⟨named₁, named⟩ := List.forall_mem_cons.mp named
    obtain ⟨readable₁, readable⟩ := List.forall_mem_cons.mp readable
    obtain ⟨fresh₁, fresh⟩ := List.forall_mem_cons.mp fresh
    rw [List.map_cons, edits, ih named readable fresh]
    by_cases empty : x.new = ""
    · rw [if_pos (by rw [entry, empty]; rfl), TextEdit.requests_cons_empty empty]
    · have filled : ¬((entry x).replacement.isEmpty = true) := by
        rwa [String.isEmpty_iff]
      rw [if_neg filled, entry, readable₁]
      dsimp only
      rw [if_neg (not_not.mpr named₁), if_pos fresh₁, TextEdit.requests_cons empty]
      rfl

/-- Entries that were made from segments are the entries of edits. -/
theorem exists_items {entries : List TextEntry} {texts : List (TextId × String)}
    (made : entries.map (fun entry => { entry with replacement := "" }) =
      texts.map fun (id, text) => { id := id.text, wording := text }) :
    ∃ items : List TextEdit, entries = items.map entry ∧
      texts = items.map fun x => (x.id, x.old) := by
  induction entries generalizing texts with
  | nil =>
    rw [List.map_nil, eq_comm, List.map_eq_nil_iff] at made
    exact ⟨[], rfl, made⟩
  | cons first entries ih =>
    rw [List.map_cons, eq_comm, List.map_eq_cons_iff] at made
    obtain ⟨⟨id, text⟩, texts, rfl, same, made⟩ := made
    obtain ⟨items, rfl, rfl⟩ := ih made.symm
    obtain ⟨_, wording, new⟩ := first
    cases same
    exact ⟨⟨id, wording, new⟩ :: items, rfl, rfl⟩

theorem newText?_items {s : Sheet} (listed : s.texts = items.map entry) :
    s.newText? = TextEdit.rewording s.chart items := by
  funext line index
  have same : ∀ x : TextEdit, ((entry x).id = (TextId.mk s.chart line index).text) ↔
      x.id = ⟨s.chart, line, index⟩ := fun x => ⟨TextId.text_injective, congrArg TextId.text⟩
  rw [newText?, listed, List.find?_map, Option.bind_map]
  simp only [Function.comp_def, same]
  rfl

/-! ### Choices -/

variable {choices : List Choice} {first : ChoiceEntry} {entries : List ChoiceEntry} {c : Chart}
  {line index : Nat} {g : Nat → Nat → Option String}

theorem fromChoice_iff {choice : Choice} : fromChoice first choice = true ↔
    (choice.line = first.line ∧ choice.index = first.index) ∧ choice.text = first.wording := by
  simp only [fromChoice, Bool.and_eq_true, beq_iff_eq]

theorem newChoice?_cons : newChoice? (first :: entries) line index =
    if line = first.line ∧ index = first.index then
      if first.replacement = "" then none else some first.replacement
    else newChoice? entries line index := by
  rw [newChoice?, List.find?_cons]
  by_cases here : line = first.line ∧ index = first.index
  · obtain ⟨rfl, rfl⟩ := here
    simp
  · have other : ¬(first.line = line ∧ first.index = index) :=
      fun both => here ⟨both.1.symm, both.2.symm⟩
    simp [other, here, newChoice?]

theorem mem_of_newChoice? {text : String} (new : newChoice? entries line index = some text) :
    ∃ entry ∈ entries, (entry.line = line ∧ entry.index = index) ∧ entry.replacement = text ∧
      text ≠ "" := by
  obtain ⟨entry, found, new⟩ := Option.bind_eq_some_iff.mp new
  have place := List.find?_some found
  rw [decide_eq_true_iff] at place
  split at new
  · cases new
  · next filled =>
    cases new
    exact ⟨entry, List.mem_of_find?_eq_some found, place, rfl, filled⟩

/-- Entries for other places bring nothing. -/
theorem newChoice?_other
    (other : ∀ entry ∈ entries, ¬(first.line = entry.line ∧ first.index = entry.index)) :
    newChoice? entries first.line first.index = none := by
  have absent : entries.find? (fun entry =>
      decide (entry.line = first.line ∧ entry.index = first.index)) = none := by
    rw [List.find?_eq_none]
    intro entry member same
    rw [decide_eq_true_iff] at same
    exact other entry member ⟨same.1.symm, same.2.symm⟩
  rw [newChoice?, absent, Option.bind_none]

/-- What the first entry brings, and the others over it, is what all of them bring together. -/
theorem newChoice?_cons_or
    (other : ∀ entry ∈ entries, ¬(first.line = entry.line ∧ first.index = entry.index)) :
    (newChoice? (first :: entries) line index).or (g line index) =
      (newChoice? entries line index).or
        (if first.replacement ≠ "" ∧ line = first.line ∧ index = first.index then
          some first.replacement else g line index) := by
  rw [newChoice?_cons]
  by_cases here : line = first.line ∧ index = first.index
  · obtain ⟨rfl, rfl⟩ := here
    rw [newChoice?_other other]
    by_cases empty : first.replacement = "" <;> simp [empty]
  · simp [here]

/-- No entry is skipped if every choice has the wording of its entry. -/
theorem applyChoices_eq
    (distinct : entries.Pairwise fun x y => ¬(x.line = y.line ∧ x.index = y.index))
    (fresh : ∀ entry ∈ entries, ∃ choice ∈ choices, fromChoice entry choice = true ∧
      c.HasChoice choice ∧ choice.index < Text.positionLimit)
    (encodable : ∀ entry ∈ entries, c.encoding.check entry.replacement = .ok ()) (count : Nat) :
    applyChoices choices entries count (c.rechosen g) =
      ⟨c.rechosen fun line index => (newChoice? entries line index).or (g line index), [],
        .ok (count + (entries.filter fun entry => entry.replacement ≠ "").length)⟩ := by
  -- What was brought so far is in `g`; the entries that follow are for other places.
  induction entries generalizing g count with
  | nil => rfl
  | cons first entries ih =>
    obtain ⟨other, distinct⟩ := List.pairwise_cons.mp distinct
    obtain ⟨⟨choice, among, made, has, small⟩, fresh⟩ := List.forall_mem_cons.mp fresh
    obtain ⟨encodable₁, encodable⟩ := List.forall_mem_cons.mp encodable
    simp only [applyChoices, newChoice?_cons_or other]
    by_cases empty : first.replacement = ""
    · rw [if_pos (by rwa [String.isEmpty_iff]), ih distinct fresh encodable,
        List.filter_cons_of_neg (by simpa using empty)]
      simp only [empty, ne_eq, not_true_eq_false, false_and, if_false]
    · have replaced := Chart.replaceChoice_rechosen (g := g) has small encodable₁
      obtain ⟨⟨sameLine, sameIndex⟩, _⟩ := fromChoice_iff.mp made
      rw [sameLine, sameIndex] at replaced
      rw [if_neg (by rwa [String.isEmpty_iff]),
        if_pos (List.any_eq_true.mpr ⟨choice, among, made⟩), replaced]
      dsimp only
      rw [ih distinct fresh encodable, List.filter_cons_of_pos (by simpa using empty),
        List.length_cons, Nat.add_right_comm, Nat.add_assoc]
      simp only [update_place, empty, ne_eq, not_false_eq_true, true_and]

/-! ### Sheets -/

section

variable {s : Sheet} (made : s.choices.map (fun entry => { entry with replacement := "" }) =
  c.choices.map fun choice =>
    { line := choice.line, index := choice.index, wording := choice.text })

include made

theorem exists_choice :
    ∀ entry ∈ s.choices, ∃ choice ∈ c.choices, fromChoice entry choice = true := by
  intro entry member
  have listed := List.mem_map_of_mem (f := fun entry : ChoiceEntry =>
    { entry with replacement := "" }) member
  rw [made] at listed
  obtain ⟨choice, among, same⟩ := List.mem_map.mp listed
  rw [ChoiceEntry.mk.injEq] at same
  obtain ⟨line, index, text, _⟩ := same
  exact ⟨choice, among, fromChoice_iff.mpr ⟨⟨line, index⟩, text⟩⟩

theorem pairwise_entries :
    s.choices.Pairwise fun x y => ¬(x.line = y.line ∧ x.index = y.index) := by
  have distinct : (s.choices.map fun entry => { entry with replacement := "" }).Pairwise
      fun x y => ¬(x.line = y.line ∧ x.index = y.index) := by
    rw [made, List.pairwise_map]
    refine c.pairwise_choices.imp fun before same => ?_
    dsimp only at same
    omega
  exact List.pairwise_map.mp distinct

end

variable {e : Encoding} {bytes : List UInt8} {s : Sheet}

/-- The segments of a sheet that was filled in: every entry with a replacement asks for an edit, and
the edits reword the chart. -/
theorem replaceTexts_filled (read : Chart.ofBytes e bytes = .ok c)
    (extracted : s.erased = ofChart c s.chart)
    (encodable : ∀ entry ∈ s.texts, c.encoding.check entry.replacement = .ok ()) :
    ∃ asked, edits s.chart (c.texts s.chart) s.texts = ([], .ok asked) ∧ c.replaceTexts asked =
      (.ok (s.texts.filter fun entry => entry.replacement ≠ "").length, c.reworded s.newText?) := by
  obtain ⟨items, listed, texts⟩ := exists_items (congrArg Sheet.texts extracted)
  -- Every entry stands for a segment that the chart has, with the text that it has.
  have there : ∀ x ∈ items, (x.id, x.old) ∈ c.texts s.chart := by
    intro x member
    rw [texts]
    exact List.mem_map_of_mem member
  have named : ∀ x ∈ items, x.id.name = s.chart := fun x member =>
    (Chart.mem_texts.mp (there x member)).1
  have has : ∀ x ∈ items, c.HasText x.id.line x.id.index x.old := fun x member =>
    (Chart.mem_texts.mp (there x member)).2
  refine ⟨TextEdit.requests items, ?_, ?_⟩
  · have distinct : ((c.texts s.chart).map Prod.fst).Nodup :=
      List.pairwise_map.mpr ((c.pairwise_texts s.chart).imp TextId.Before.ne)
    rw [listed]
    apply edits_eq named
    · -- A chart that was read is too short for a position that could not be read back.
      intro x member
      obtain ⟨line, index⟩ := (has x member).small read
      exact TextId.ofText_text line index
    · intro x member
      exact (lookup_eq_some_iff distinct).mpr (there x member)
  · have ascending : items.Pairwise fun x y => x.id.Before y.id := by
      have before := c.pairwise_texts s.chart
      rwa [texts, List.pairwise_map] at before
    have written : ∀ x ∈ items, c.encoding.check x.new = .ok () := by
      intro x member
      rw [listed] at encodable
      exact encodable (entry x) (List.mem_map_of_mem member)
    have count : (TextEdit.requests items).length =
        (s.texts.filter fun entry => entry.replacement ≠ "").length := by
      rw [TextEdit.requests, List.length_map, listed, List.filter_map, List.length_map]
      rfl
    rw [Chart.replaceTexts_eq ascending named has written, count, newText?_items listed]

/-- The choices of a sheet that was filled in, in a chart that may have been reworded. -/
theorem applyChoices_filled (read : Chart.ofBytes e bytes = .ok c)
    (extracted : s.erased = ofChart c s.chart) (f : Nat → Nat → Option String) (count : Nat)
    (encodable : ∀ entry ∈ s.choices, c.encoding.check entry.replacement = .ok ()) :
    applyChoices (c.reworded f).choices s.choices count (c.reworded f) =
      ⟨(c.reworded f).rechosen (newChoice? s.choices), [],
        .ok (count + (s.choices.filter fun entry => entry.replacement ≠ "").length)⟩ := by
  have made := congrArg Sheet.choices extracted
  have fresh : ∀ entry ∈ s.choices, ∃ choice ∈ c.choices, fromChoice entry choice = true ∧
      (c.reworded f).HasChoice choice ∧ choice.index < Text.positionLimit := by
    intro entry member
    obtain ⟨choice, among, same⟩ := exists_choice made entry member
    obtain ⟨has, small⟩ := Chart.hasChoice_of_mem read among
    exact ⟨choice, among, same, has.reworded f, small⟩
  have chosen := applyChoices_eq (g := fun _ _ => none) (pairwise_entries made) fresh encodable
    count
  simp only [Chart.rechosen_none, Option.or_none] at chosen
  rw [Chart.choices_reworded, chosen]

/-- Applying a sheet that was filled in. -/
theorem apply_eq (read : Chart.ofBytes e bytes = .ok c) (extracted : s.erased = ofChart c name)
    (encodable : ∀ text ∈ s.replacements, c.encoding.check text = .ok ()) :
    s.apply c = ⟨s.filled c, [], .ok (s.replacements.filter fun text => text ≠ "").length⟩ := by
  have chart : s.chart = name := congrArg Sheet.chart extracted
  subst chart
  obtain ⟨encodable, encodable'⟩ := List.forall_mem_append.mp encodable
  rw [List.forall_mem_map] at encodable encodable'
  obtain ⟨asked, read_off, replaced⟩ := replaceTexts_filled read extracted encodable
  rw [apply, read_off]
  dsimp only
  rw [replaced]
  dsimp only
  rw [applyChoices_filled read extracted _ _ encodable', replacements, List.filter_append,
    List.length_append, List.filter_map, List.filter_map, List.length_map, List.length_map]
  rfl

/-! ### What the chart is then -/

/-- A block of the chart gets the texts that the sheet brings to its line. -/
theorem block_filled {block : TextBlock} (s : Sheet) (there : c.block line = .ok block) :
    (s.filled c).block line = .ok (block.fill (s.newText? line)) :=
  Chart.block_rechosen _ (Chart.block_reworded there)

theorem choices_filled (read : Chart.ofBytes e bytes = .ok c) (s : Sheet) :
    (s.filled c).choices = c.choices.map fun choice =>
      { choice with text := (newChoice? s.choices choice.line choice.index).getD choice.text } := by
  rw [filled, Chart.choices_rechosen, Chart.choices_reworded]
  intro choice member
  rw [Chart.choices_reworded] at member
  exact (Chart.hasChoice_of_mem read member).1.reworded _

/-- A line for which there is nothing new stays. -/
theorem getElem?_filled (texts : ∀ index, s.newText? line index = none)
    (choices : ∀ index, newChoice? s.choices line index = none) :
    (s.filled c).commands[line]? = c.commands[line]? := by
  rw [filled, Chart.getElem?_rechosen_same, Chart.getElem?_reworded_none texts]
  intro _ _ index _ _ _ new
  rw [choices index] at new
  cases new

/-- Nothing changes if nothing is new. -/
theorem filled_same (read : Chart.ofBytes e bytes = .ok c) (extracted : s.erased = ofChart c name)
    (texts : ∀ entry ∈ s.texts, entry.replacement = "" ∨ entry.replacement = entry.wording)
    (choices : ∀ entry ∈ s.choices, entry.replacement = "" ∨ entry.replacement = entry.wording) :
    s.filled c = c := by
  have nothing : s.newText? = fun _ _ => none := by
    funext line index
    rw [newText?, Option.bind_eq_none_iff]
    intro entry found
    exact if_pos (texts entry (List.mem_of_find?_eq_some found))
  rw [filled, nothing, Chart.reworded_none]
  apply Chart.rechosen_same
  intro line command params index text found typed new
  obtain ⟨entry, member, ⟨rfl, rfl⟩, rfl, filled⟩ := mem_of_newChoice? new
  -- The entry was made from a choice of the chart, whose text is in front of its group.
  obtain ⟨choice, among, same⟩ := exists_choice (congrArg Sheet.choices extracted) entry member
  obtain ⟨⟨sameLine, sameIndex⟩, sameText⟩ := fromChoice_iff.mp same
  obtain ⟨command', params', found', _, typed', held⟩ := (Chart.hasChoice_of_mem read among).1
  rw [sameLine] at found'
  cases found.symm.trans found'
  cases typed.symm.trans typed'
  rw [sameIndex, sameText] at held
  rw [(choices entry member).resolve_left filled]
  exact ⟨_, held⟩

/-- Applying a sheet that was made from a chart and filled in skips nothing. Each segment with a new
text has what is left of it, or is gone, and everything else in its block stays; each choice with a
new text has it, with the jump that it had. Where nothing is new the chart stays, down to its
bytes. -/
theorem apply_filled (read : Chart.ofBytes e bytes = .ok c) (extracted : s.erased = ofChart c name)
    (encodable : ∀ text ∈ s.replacements, c.encoding.check text = .ok ()) :
    s.apply c = ⟨s.filled c, [], .ok (s.replacements.filter fun text => text ≠ "").length⟩ ∧
      (s.filled c).frame = c.frame ∧
      (∀ line block, c.block line = .ok block → ∃ block', (s.filled c).block line = .ok block' ∧
        block'.version = block.version ∧
        Token.outlineAll block'.tokens = Token.outlineAll block.tokens ∧
        (Chart.blockTexts block').map Prod.snd = (Chart.blockTexts block).flatMap
          fun (index, text) => Text.renewed text (s.newText? line index)) ∧
      (s.filled c).choices = c.choices.map (fun choice =>
        { choice with text := (newChoice? s.choices choice.line choice.index).getD choice.text }) ∧
      (∀ line, (∀ index, s.newText? line index = none) →
        (∀ index, newChoice? s.choices line index = none) →
          (s.filled c).commands[line]? = c.commands[line]?) ∧
      ((∀ entry ∈ s.texts, entry.replacement = "" ∨ entry.replacement = entry.wording) →
        (∀ entry ∈ s.choices, entry.replacement = "" ∨ entry.replacement = entry.wording) →
          s.filled c = c ∧ (s.filled c).toBytes = .ok bytes) := by
  have applied := apply_eq read extracted encodable
  refine ⟨applied, ?_, ?_, choices_filled read s, fun line => getElem?_filled, ?_⟩
  · have kept := frame_apply s c
    rwa [applied] at kept
  · intro line block there
    exact ⟨_, block_filled s there, rfl, Segment.outlineAll_fill _ _, Chart.blockTexts_fill _ _⟩
  · intro texts choices
    have same := filled_same read extracted texts choices
    obtain ⟨_, image⟩ := Chart.ofBytes_eq_ok.mp read
    refine ⟨same, ?_⟩
    rw [same]
    exact image.toBytes_eq

/-- The sheet of the sample with three replacements. -/
def sampleSheet (first second third : String) : Sheet where
  chart := "c:"
  texts := [⟨"lsb:text:c::0:0", "Hi;", first⟩, ⟨"lsb:text:c::0:1", "ｱ", second⟩]
  choices := [⟨1, 0, "Go", third⟩]

/-- What the sample is filled in with: a line that ends with a return and a feed, a feed alone, of
which nothing is left, and a choice. -/
def sampleFilled : Sheet :=
  sampleSheet "Bye\r\n" "\n" "Stop"

set_option maxRecDepth 10000 in
/-- The sample loses one of its segments and gets a new text for the other one and for its choice. A
sheet that brings nothing new is applied as well, and nothing changes. -/
theorem apply_filled_sample :
    sampleFilled.apply Chart.sample.marked =
        ⟨sampleFilled.filled Chart.sample.marked, [], .ok 3⟩ ∧
      (∃ block, (sampleFilled.filled Chart.sample.marked).block 0 = .ok block ∧
        (Chart.blockTexts block).map Prod.snd = ["Bye"]) ∧
      (sampleFilled.filled Chart.sample.marked).choices = [⟨1, 0, "Stop", 1⟩] ∧
      (sampleSheet "" "ｱ" "Go").apply Chart.sample.marked = ⟨Chart.sample.marked, [], .ok 2⟩ := by
  have read : Chart.ofBytes .cp932 Chart.sampleBytes = .ok Chart.sample.marked := by
    rfl
  have extracted : ∀ first second third,
      (sampleSheet first second third).erased = ofChart Chart.sample.marked "c:" := by
    intro _ _ _
    rfl
  obtain ⟨applied, _, texts, choices, _⟩ :=
    apply_filled (s := sampleFilled) read (extracted _ _ _) (by decide)
  obtain ⟨block, there, _, _, texts⟩ := texts 0 _ rfl
  obtain ⟨applied', _, _, _, _, kept⟩ :=
    apply_filled read (extracted "" "ｱ" "Go") (by decide)
  obtain ⟨same, _⟩ := kept (by decide) (by decide)
  refine ⟨applied, ⟨block, there, texts.trans ?_⟩, choices, ?_⟩
  · rfl
  · rw [applied', same]
    rfl

end Sheet

end NovelChart
