import NovelChart.Proofs.Substitution

/-!
# Batches that fail

A batch of edits stops at the first one that is refused, and those that were made before it stay. So
a batch is not all or nothing: the text that cannot be written may be found after others were put
in, and a sheet puts all its texts in before it looks at the choices of menus. What is left is the
outcome of the edits in front of the one that was refused. For a sheet this happens only with a text
that cannot be written or a segment that is named again after it was removed; every other failure
comes before the first edit.

## Main definitions

* `TextTarget.insertAll`: new texts, one after another
* `TextTarget.Interrupted`: new texts up to one that is refused
* `Sheet.steps`: the edits of a sheet, in the order in which they are made

## Main results

* `Chart.replaceInOrder_eq_ok`, `Chart.replaceInOrder_eq_error`: edits in order, made or interrupted
* `Sheet.apply_eq_error`: where applying a sheet stops
* `Chart.exists_replaceInOrder`, `Sheet.exists_insertAll_choices`: what can be written is put in
* `Sheet.failed_batch`: what a failed batch leaves
* `Sheet.failed_batch_part`: failed batches that leave part of their edits
-/

namespace NovelChart

/-! ### Edits one after another -/

namespace TextTarget

/-- Puts new texts into a chart one after another. -/
def insertAll (c : Chart) : List (TextTarget × String) → Except Error Chart
  | [] => .ok c
  | (target, text) :: rest =>
    match target.insert c text with
    | .ok c => insertAll c rest
    | .error cause => .error cause

/-- New texts are put into a chart up to one that is refused, and the ones before it stay. -/
def Interrupted (steps : List (TextTarget × String)) (c c' : Chart) (cause : Error) : Prop :=
  ∃ done target text rest, steps = done ++ (target, text) :: rest ∧
    insertAll c done = .ok c' ∧ target.insert c' text = .error cause

variable {target : TextTarget} {text : String} {c c' c₁ : Chart} {cause reason : Error}
  {steps rest : List (TextTarget × String)}

theorem insertAll_append (made : insertAll c steps = .ok c₁) (rest : List (TextTarget × String)) :
    insertAll c (steps ++ rest) = insertAll c₁ rest := by
  induction steps generalizing c with
  | nil =>
    cases made
    rfl
  | cons step steps ih =>
    rw [insertAll] at made
    rw [List.cons_append, insertAll]
    split at made
    · exact ih made
    · cases made

theorem interrupted_nil : ¬Interrupted [] c c' cause := by
  rintro ⟨done, target, text, rest, split, _⟩
  exact List.append_ne_nil_of_right_ne_nil done (List.cons_ne_nil _ _) split.symm

theorem interrupted_cons_of_ok (inserted : target.insert c text = .ok c₁) :
    Interrupted ((target, text) :: rest) c c' cause ↔ Interrupted rest c₁ c' cause := by
  constructor
  · rintro ⟨done, target', text', rest', split, made, refused⟩
    cases done with
    | nil =>
      -- The first edit was made, so it is not the one that was refused.
      cases split
      cases made
      rw [inserted] at refused
      cases refused
    | cons step done =>
      cases split
      rw [insertAll, inserted] at made
      exact ⟨done, target', text', rest', rfl, made, refused⟩
  · rintro ⟨done, target', text', rest', rfl, made, refused⟩
    refine ⟨(target, text) :: done, target', text', rest', rfl, ?_, refused⟩
    rw [insertAll, inserted]
    exact made

theorem interrupted_cons_of_error (refused : target.insert c text = .error reason) :
    Interrupted ((target, text) :: rest) c c' cause ↔ reason = cause ∧ c = c' := by
  constructor
  · rintro ⟨done, target', text', rest', split, made, refused'⟩
    -- Nothing can be made, since already the first edit is refused.
    cases done with
    | nil =>
      cases split
      cases made
      rw [refused] at refused'
      exact ⟨Except.error.inj refused', rfl⟩
    | cons step done =>
      cases split
      rw [insertAll, refused] at made
      cases made
  · rintro ⟨rfl, rfl⟩
    exact ⟨[], target, text, rest, rfl, rfl, refused⟩

theorem Interrupted.append_right (stopped : Interrupted steps c c' cause)
    (rest : List (TextTarget × String)) : Interrupted (steps ++ rest) c c' cause := by
  obtain ⟨done, target, text, more, rfl, made, refused⟩ := stopped
  exact ⟨done, target, text, more ++ rest, by simp, made, refused⟩

theorem Interrupted.append_left (made : insertAll c steps = .ok c₁)
    (stopped : Interrupted rest c₁ c' cause) : Interrupted (steps ++ rest) c c' cause := by
  obtain ⟨done, target, text, more, rfl, made', refused⟩ := stopped
  refine ⟨steps ++ done, target, text, more, by simp, ?_, refused⟩
  rw [insertAll_append made, made']

theorem not_interrupted (made : insertAll c steps = .ok c₁) : ¬Interrupted steps c c' cause := by
  rintro ⟨done, target, text, rest, rfl, made', refused⟩
  rw [insertAll_append made', insertAll, refused] at made
  cases made

/-- A text with a character that cannot be written is refused. -/
theorem exists_insert_error (target : TextTarget) {ch : Char} (member : ch ∈ text.toList)
    (missing : c.encoding.encodeChar ch = none) : ∃ cause, target.insert c text = .error cause := by
  cases inserted : target.insert c text with
  | error cause => exact ⟨cause, rfl⟩
  | ok c' =>
    have written := (edited inserted).1 ch member
    rw [missing] at written
    cases written

/-- Edits of segments as new texts. -/
def ofEdits (edits : List (TextId × String)) : List (TextTarget × String) :=
  edits.map fun (id, text) => (segment id, text)

end TextTarget

open TextTarget

namespace Chart

variable {c c' : Chart} {cause : Error} {edits : List (TextId × String)}

theorem replaceInOrder_eq_ok :
    replaceInOrder edits c = (.ok (), c') ↔ insertAll c (ofEdits edits) = .ok c' := by
  induction edits generalizing c with
  | nil => simp [replaceInOrder, ofEdits, insertAll]
  | cons x edits ih =>
    rw [replaceInOrder, ofEdits, List.map_cons, insertAll, TextTarget.insert]
    cases c.replaceText x.1 x.2 with
    | ok c₁ => exact ih
    | error reason => simp

theorem replaceInOrder_eq_error :
    replaceInOrder edits c = (.error cause, c') ↔ Interrupted (ofEdits edits) c c' cause := by
  induction edits generalizing c with
  | nil =>
    rw [ofEdits, List.map_nil, replaceInOrder]
    simp [interrupted_nil]
  | cons x edits ih =>
    rw [replaceInOrder, ofEdits, List.map_cons]
    cases edited : c.replaceText x.1 x.2 with
    | ok c₁ =>
      have inserted : (segment x.1).insert c x.2 = .ok c₁ := edited
      rw [interrupted_cons_of_ok inserted]
      exact ih
    | error reason =>
      have refused : (segment x.1).insert c x.2 = .error reason := edited
      rw [interrupted_cons_of_error refused, Prod.mk.injEq, Except.error.injEq]

/-- A batch stops at the first edit that is refused. -/
theorem replaceTexts_eq_error : c.replaceTexts edits = (.error cause, c') ↔
    Interrupted (ofEdits (edits.mergeSort notBefore)) c c' cause := by
  rw [← replaceInOrder_eq_error, replaceTexts]
  rcases replaceInOrder (edits.mergeSort notBefore) c with ⟨result, c₁⟩
  cases result with
  | ok done => simp [Except.map]
  | error reason => simp [Except.map]

theorem replaceInOrder_of_replaceTexts {count : Nat}
    (replaced : c.replaceTexts edits = (.ok count, c')) :
    replaceInOrder (edits.mergeSort notBefore) c = (.ok (), c') := by
  rw [replaceTexts] at replaced
  generalize replaceInOrder (edits.mergeSort notBefore) c = run at replaced ⊢
  obtain ⟨result, c₁⟩ := run
  cases result with
  | ok done =>
    cases replaced
    rfl
  | error reason => cases replaced

theorem choices_replaceInOrder (made : replaceInOrder edits c = (.ok (), c')) :
    c'.choices = c.choices := by
  obtain ⟨g, same⟩ := replaceInOrder_mapBlocks edits c
  rw [made] at same
  have same : c' = c.mapBlocks g := same
  rw [same, choices_mapBlocks]

theorem exists_replaceText {id : TextId} {text : String} (encodable : c.encoding.check text = .ok ())
    (inside : id.index < (c.lineTexts id.line).length) : ∃ c', c.replaceText id text = .ok c' := by
  obtain ⟨block, seg, there, found, _⟩ := hasText_iff.mpr (List.getElem?_eq_getElem inside)
  exact ⟨_, replaceText_eq_ok.mpr ⟨encodable, block, seg, there, found, rfl⟩⟩

/-- Edits in descending order are made if their texts can be written, their segments are there, and
none of them follows one at its place that leaves nothing. -/
theorem exists_replaceInOrder (descending : edits.Pairwise fun x y => notBefore x y = true)
    (once : edits.Pairwise fun x y => SamePlace x y → Text.settled? x.2 ≠ none)
    (encodable : ∀ x ∈ edits, c.encoding.check x.2 = .ok ())
    (inside : ∀ x ∈ edits, x.1.index < (c.lineTexts x.1.line).length) :
    ∃ c', replaceInOrder edits c = (.ok (), c') := by
  -- The segments that are left stay where they are while those behind them are edited.
  induction edits generalizing c with
  | nil => exact ⟨c, rfl⟩
  | cons x edits ih =>
    obtain ⟨behind, descending⟩ := List.pairwise_cons.mp descending
    obtain ⟨left, once⟩ := List.pairwise_cons.mp once
    obtain ⟨encodable₁, encodable⟩ := List.forall_mem_cons.mp encodable
    obtain ⟨inside₁, inside⟩ := List.forall_mem_cons.mp inside
    obtain ⟨c₁, edited⟩ := exists_replaceText encodable₁ inside₁
    have same : c₁.encoding = c.encoding := encoding_of_frame (frame_replaceText edited)
    obtain ⟨front, old, back, new, cut, length, present, changed⟩ := lineTexts_replaceText edited
    rw [replaceInOrder, edited]
    refine ih descending once (fun y member => ?_) fun y member => ?_
    · rw [same]
      exact encodable y member
    · rw [changed]
      by_cases here : y.1.line = x.1.line
      · -- The segment is in front of this one, or it is this one and something is left of it.
        have before := notBefore_iff.mp (behind y member)
        rw [if_pos here, List.length_append, List.length_append]
        by_cases apart : y.1.index < x.1.index
        · omega
        · have together : x.1.index = y.1.index := by omega
          obtain ⟨kept, rfl⟩ :=
            Option.ne_none_iff_exists'.mp (present (left y member ⟨here.symm, together⟩))
          rw [Option.toList_some, List.length_singleton]
          omega
      · rw [if_neg here]
        exact inside y member

end Chart

/-! ### Sheets -/

namespace Sheet

variable {c c' : Chart} {s : Sheet} {e : Encoding} {bytes : List UInt8} {failure : Failure}

/-- The entries for choices that are put in, as new texts. -/
def choiceSteps (current : List Choice) (entries : List ChoiceEntry) :
    List (TextTarget × String) :=
  (entries.filter fun entry =>
    !entry.replacement.isEmpty && current.any (fromChoice entry)).map fun entry =>
      (.choice entry.line entry.index, entry.replacement)

/-- The edits of a sheet, in the order in which they are made. -/
def steps (s : Sheet) (c : Chart) : List (TextTarget × String) :=
  ofEdits ((s.asked c).mergeSort Chart.notBefore) ++ choiceSteps c.choices s.choices

theorem choiceSteps_cons (current : List Choice) (entry : ChoiceEntry)
    (entries : List ChoiceEntry) : choiceSteps current (entry :: entries) =
      if !entry.replacement.isEmpty && current.any (fromChoice entry) then
        (.choice entry.line entry.index, entry.replacement) :: choiceSteps current entries
      else choiceSteps current entries := by
  rw [choiceSteps, List.filter_cons]
  split
  · rfl
  · rfl

/-- Entries for choices are put in up to one that is refused. -/
theorem applyChoices_eq_error {current : List Choice} {entries : List ChoiceEntry} {start : Nat}
    (failed : (applyChoices current entries start c).result = .error failure) :
    ∃ cause, failure.cause = .chart cause ∧ Interrupted (choiceSteps current entries) c
      (applyChoices current entries start c).chart cause := by
  induction entries generalizing c start with
  | nil => cases failed
  | cons entry entries ih =>
    rw [applyChoices] at failed ⊢
    by_cases empty : entry.replacement.isEmpty = true
    · rw [if_pos empty] at failed ⊢
      rw [choiceSteps_cons, if_neg (by simp [empty])]
      exact ih failed
    · rw [if_neg empty] at failed ⊢
      by_cases fresh : current.any (fromChoice entry) = true
      · rw [if_pos fresh] at failed ⊢
        rw [choiceSteps_cons, if_pos (by simp [empty, fresh])]
        cases edited : c.replaceChoice entry.line entry.index entry.replacement with
        | ok c₁ =>
          have inserted : (choice entry.line entry.index).insert c entry.replacement = .ok c₁ :=
            edited
          rw [edited] at failed
          obtain ⟨cause, same, stopped⟩ := ih failed
          exact ⟨cause, same, (interrupted_cons_of_ok inserted).mpr stopped⟩
        | error cause =>
          have refused : (choice entry.line entry.index).insert c entry.replacement =
              .error cause := edited
          rw [edited] at failed
          cases failed
          exact ⟨cause, rfl, (interrupted_cons_of_error refused).mpr ⟨rfl, rfl⟩⟩
      · rw [if_neg fresh] at failed ⊢
        rw [choiceSteps_cons, if_neg (by simp [fresh])]
        exact ih failed

/-- Applying a sheet fails before the first edit, or it stops at the first that is refused. -/
theorem apply_eq_error (failed : (s.apply c).result = .error failure) :
    ((edits s.chart (c.texts s.chart) s.texts).2 = .error failure ∧ (s.apply c).chart = c) ∨
    ∃ cause, failure.cause = .chart cause ∧
      Interrupted (s.steps c) c (s.apply c).chart cause := by
  rw [steps]
  simp only [apply, asked] at failed ⊢
  generalize edits s.chart (c.texts s.chart) s.texts = read_off at failed ⊢
  obtain ⟨notices, made⟩ := read_off
  cases made with
  | error reason =>
    cases failed
    exact .inl ⟨rfl, rfl⟩
  | ok made =>
    refine .inr ?_
    dsimp only [Except.toOption, Option.getD_some] at failed ⊢
    rcases replaced : c.replaceTexts made with ⟨done, c₁⟩
    rw [replaced] at failed
    cases done with
    | error cause =>
      cases failed
      exact ⟨cause, rfl, (Chart.replaceTexts_eq_error.mp replaced).append_right _⟩
    | ok count =>
      have made' := Chart.replaceInOrder_of_replaceTexts replaced
      obtain ⟨cause, same, stopped⟩ := applyChoices_eq_error failed
      rw [← Chart.choices_replaceInOrder made']
      exact ⟨cause, same, stopped.append_left (Chart.replaceInOrder_eq_ok.mp made')⟩

/-- Entries for choices that can be written are put in. -/
theorem exists_insertAll_choices {current : List Choice} {entries : List ChoiceEntry}
    (has : ∀ choice ∈ current, c.HasChoice choice ∧ choice.index < Text.positionLimit)
    (encodable : ∀ entry ∈ entries, c.encoding.check entry.replacement = .ok ())
    (g : Nat → Nat → Option String) :
    ∃ c', insertAll (c.rechosen g) (choiceSteps current entries) = .ok c' := by
  induction entries generalizing g with
  | nil => exact ⟨c.rechosen g, rfl⟩
  | cons entry entries ih =>
    obtain ⟨encodable₁, encodable⟩ := List.forall_mem_cons.mp encodable
    rw [choiceSteps_cons]
    by_cases wanted : (!entry.replacement.isEmpty && current.any (fromChoice entry)) = true
    · obtain ⟨choice, among, made⟩ := List.any_eq_true.mp (Bool.and_eq_true_iff.mp wanted).2
      obtain ⟨⟨sameLine, sameIndex⟩, _⟩ := fromChoice_iff.mp made
      obtain ⟨there, small⟩ := has choice among
      have replaced := Chart.replaceChoice_rechosen (g := g) there small encodable₁
      rw [sameLine, sameIndex] at replaced
      rw [if_pos wanted, insertAll, TextTarget.insert, replaced]
      exact ih encodable _
    · rw [if_neg wanted]
      exact ih encodable g

/-- Every edit that is asked for comes from an entry and has a segment. -/
theorem mem_asked {x : TextId × String} (member : x ∈ s.asked c) :
    x.1.name = s.chart ∧ (∃ entry ∈ s.texts, entry.replacement = x.2) ∧
      x.1.index < (c.lineTexts x.1.line).length := by
  rw [asked] at member
  cases read_off : (edits s.chart (c.texts s.chart) s.texts).2 with
  | error reason =>
    rw [read_off] at member
    cases member
  | ok made =>
    rw [read_off] at member
    obtain ⟨named, entry, among, _, same, there⟩ := mem_edits_entry read_off x member
    have listed : (x.1, entry.wording) ∈ c.texts s.chart := by
      obtain ⟨front, back, split, _⟩ := List.lookup_eq_some_iff.mp there
      rw [split]
      exact List.mem_append_right front List.mem_cons_self
    obtain ⟨_, has⟩ := Chart.mem_texts.mp listed
    refine ⟨named, ⟨entry, among, same⟩, ?_⟩
    exact (List.getElem?_eq_some_iff.mp (Chart.hasText_iff.mp has)).1

/-- The edits of a sheet whose texts can be written are made. -/
theorem exists_insertAll_steps (read : Chart.ofBytes e bytes = .ok c)
    (once : (s.asked c).Pairwise fun x y => x.1 = y.1 → Text.settled? x.2 ≠ none)
    (texts : ∀ entry ∈ s.texts, c.encoding.check entry.replacement = .ok ())
    (choices : ∀ entry ∈ s.choices, c.encoding.check entry.replacement = .ok ()) :
    ∃ c', insertAll c (s.steps c) = .ok c' := by
  -- All edits are under one name, so those at one place have one identifier.
  have apart : (s.asked c).Pairwise fun x y =>
      Chart.SamePlace x y → Text.settled? x.2 ≠ none := by
    refine once.imp_of_mem fun {x y} member member' left same => left ?_
    rw [TextId.mk.injEq]
    exact ⟨(mem_asked member).1.trans (mem_asked member').1.symm, same⟩
  have encodable : ∀ x ∈ (s.asked c).mergeSort Chart.notBefore,
      c.encoding.check x.2 = .ok () := by
    intro x member
    obtain ⟨_, ⟨entry, among, same⟩, _⟩ := mem_asked (List.mem_mergeSort.mp member)
    rw [← same]
    exact texts entry among
  obtain ⟨c₁, made⟩ := Chart.exists_replaceInOrder (Chart.sorted_mergeSort _)
    (Chart.pairwise_mergeSort_place apart) encodable
    fun x member => (mem_asked (List.mem_mergeSort.mp member)).2.2
  obtain ⟨h, blocks⟩ :=
    Chart.replaceInOrder_mapBlocks ((s.asked c).mergeSort Chart.notBefore) c
  rw [made] at blocks
  have blocks : c₁ = c.mapBlocks h := blocks
  have has : ∀ choice ∈ c.choices,
      c₁.HasChoice choice ∧ choice.index < Text.positionLimit := by
    intro choice member
    obtain ⟨there, small⟩ := Chart.hasChoice_of_mem read member
    rw [blocks]
    exact ⟨there.mapBlocks h, small⟩
  have encoding : c₁.encoding = c.encoding := by
    rw [blocks]
    rfl
  rw [steps, insertAll_append (Chart.replaceInOrder_eq_ok.mp made), ← Chart.rechosen_none c₁]
  -- The texts are in, and the choices are still where they were read.
  refine exists_insertAll_choices has (fun entry member => ?_) _
  rw [encoding]
  exact choices entry member

/-- What a failed batch leaves: the edits in front of the one that was refused were made. If all the
texts of a sheet can be written, and it names no segment again of which it leaves nothing, then a
failure leaves the chart as it was. -/
theorem failed_batch (c : Chart) :
    (∀ edits cause c', c.replaceTexts edits = (.error cause, c') ↔
      Interrupted (ofEdits (edits.mergeSort Chart.notBefore)) c c' cause) ∧
    ∀ (s : Sheet) failure, (s.apply c).result = .error failure →
      ((edits s.chart (c.texts s.chart) s.texts).2 = .error failure ∧ (s.apply c).chart = c ∨
        ∃ cause, failure.cause = .chart cause ∧
          Interrupted (s.steps c) c (s.apply c).chart cause) ∧
      ∀ e bytes, Chart.ofBytes e bytes = .ok c →
        ((s.asked c).Pairwise fun x y => x.1 = y.1 → Text.settled? x.2 ≠ none) →
        (∀ text ∈ s.texts.map TextEntry.replacement ++ s.choices.map ChoiceEntry.replacement,
          ∀ ch ∈ text.toList, (e.encodeChar ch).isSome = true) →
        (s.apply c).chart = c := by
  refine ⟨fun edits cause c' => Chart.replaceTexts_eq_error, fun s failure failed =>
    ⟨apply_eq_error failed, fun e bytes read once encodable => ?_⟩⟩
  obtain ⟨_, image⟩ := Chart.ofBytes_eq_ok.mp read
  rw [← image.encoding] at encodable
  have check : ∀ text ∈ s.texts.map TextEntry.replacement ++ s.choices.map
      ChoiceEntry.replacement, c.encoding.check text = .ok () :=
    fun text member => Encoding.check_eq_ok.mpr (encodable text member)
  obtain ⟨texts, choices⟩ := List.forall_mem_append.mp check
  obtain ⟨c', made⟩ := exists_insertAll_steps read once (List.forall_mem_map.mp texts)
    (List.forall_mem_map.mp choices)
  rcases apply_eq_error failed with ⟨_, same⟩ | ⟨cause, _, stopped⟩
  · exact same
  · -- All the edits can be made, so none of them was refused.
    exact absurd stopped (not_interrupted made)

/-- A sheet for the sample with an entry of another chart, behind one that could be put in. -/
def sampleForeign : Sheet where
  chart := "c"
  texts := [⟨"lsb:text:c:0:0", "Hi;", "Yo"⟩, ⟨"lsb:text:d:0:1", "ｱ", "x"⟩]

/-- A sheet for the sample with a text that can be written and a choice that cannot. -/
def sampleUnwritable : Sheet where
  chart := "c"
  texts := [⟨"lsb:text:c:0:0", "Hi;", "Yo"⟩]
  choices := [⟨1, 0, "Go", "😀"⟩]

set_option maxRecDepth 10000 in
/-- The entry of another chart is found before the sample is changed. -/
theorem failed_batch_foreign :
    (sampleForeign.apply Chart.sample.marked).result =
      .error (.of (.foreignText "lsb:text:d:0:1" "c")) ∧
    (sampleForeign.apply Chart.sample.marked).chart = Chart.sample.marked := by
  have read : Chart.ofBytes .cp932 Chart.sampleBytes = .ok Chart.sample.marked := by
    rfl
  have failed : (sampleForeign.apply Chart.sample.marked).result =
      .error (.of (.foreignText "lsb:text:d:0:1" "c")) := by
    rfl
  have letters : (["Yo", "x"].all fun text => text.toList.all fun ch =>
      (Encoding.cp932.encodeChar ch).isSome) = true := by
    decide
  obtain ⟨_, sheets⟩ := failed_batch Chart.sample.marked
  obtain ⟨_, same⟩ := sheets sampleForeign _ failed
  exact ⟨failed, same .cp932 Chart.sampleBytes read (by decide)
    fun text member => List.all_eq_true.mp (List.all_eq_true.mp letters text member)⟩

set_option maxRecDepth 10000 in
/-- A batch of edits fails at its second one, and the first one stays. A sheet fails at its choice,
and its text stays. -/
theorem failed_batch_part :
    Chart.ofBytes .cp932 Chart.sampleBytes = .ok Chart.sample.marked ∧
    Chart.sample.marked.texts "c" = [(⟨"c", 0, 0⟩, "Hi;"), (⟨"c", 0, 1⟩, "ｱ")] ∧
    (∃ cause c', Chart.sample.marked.replaceTexts [(⟨"c", 0, 1⟩, "x"), (⟨"c", 0, 0⟩, "😀")] =
        (.error cause, c') ∧
      c'.texts "c" = [(⟨"c", 0, 0⟩, "Hi;"), (⟨"c", 0, 1⟩, "x")]) ∧
    ∃ failure, (sampleUnwritable.apply Chart.sample.marked).result = .error failure ∧
      (sampleUnwritable.apply Chart.sample.marked).chart.texts "c" =
        [(⟨"c", 0, 0⟩, "Yo"), (⟨"c", 0, 1⟩, "ｱ")] := by
  have missing : Encoding.cp932.encodeChar '😀' = none :=
    Encoding.encodeChar_of_beyond (by decide)
  have member : '😀' ∈ "😀".toList := by
    decide
  refine ⟨by rfl, by decide, ?_, ?_⟩
  · -- The edits are in the order in which they are made.
    have sorted : [((⟨"c", 0, 1⟩ : TextId), "x"), (⟨"c", 0, 0⟩, "😀")].mergeSort Chart.notBefore =
        [(⟨"c", 0, 1⟩, "x"), (⟨"c", 0, 0⟩, "😀")] :=
      List.mergeSort_of_pairwise (by decide)
    obtain ⟨c', made, encoding, texts⟩ : ∃ c',
        insertAll Chart.sample.marked [(.segment ⟨"c", 0, 1⟩, "x")] = .ok c' ∧
          c'.encoding = .cp932 ∧
          c'.texts "c" = [(⟨"c", 0, 0⟩, "Hi;"), (⟨"c", 0, 1⟩, "x")] :=
      ⟨_, rfl, rfl, by decide⟩
    obtain ⟨cause, refused⟩ := exists_insert_error (.segment ⟨"c", 0, 0⟩) member
      (by rw [encoding, missing])
    refine ⟨cause, c', Chart.replaceTexts_eq_error.mpr ?_, texts⟩
    rw [sorted]
    exact ⟨_, _, _, [], rfl, made, refused⟩
  · obtain ⟨c₁, edited, encoding, choices, texts⟩ : ∃ c₁,
        Chart.replaceInOrder [(⟨"c", 0, 0⟩, "Yo")] Chart.sample.marked = (.ok (), c₁) ∧
          c₁.encoding = .cp932 ∧ c₁.choices = [⟨1, 0, "Go", 1⟩] ∧
          c₁.texts "c" = [(⟨"c", 0, 0⟩, "Yo"), (⟨"c", 0, 1⟩, "ｱ")] :=
      ⟨_, rfl, rfl, by decide, by decide⟩
    obtain ⟨cause, refused⟩ := exists_insert_error (.choice 1 0) member
      (by rw [encoding, missing])
    have refused : c₁.replaceChoice 1 0 "😀" = .error cause := refused
    have applied : sampleUnwritable.apply Chart.sample.marked =
        ⟨c₁, [], .error (.during (.insertingChoice 1 0) (.chart cause))⟩ := by
      rw [apply_eq_of_sorted [(⟨"c", 0, 0⟩, "Yo")] (by rfl) (by decide) edited, choices,
        sampleUnwritable, applyChoices, if_neg (by decide), if_pos (by decide)]
      dsimp only
      rw [refused]
    rw [applied]
    exact ⟨_, rfl, texts⟩

end Sheet

end NovelChart
