import NovelChart.Proofs.Sheet

/-!
# What a sheet does not name

A sheet may be put together by hand: its entries may be in any order, repeated, stale, or about
nothing that the chart has. Entries are checked against the chart before any of them is put in, and
then they are put in from the last segment to the first, those for one segment in the order of the
sheet. So every edit meets the segment that it names, unless an earlier one for the same segment
left nothing of it: then the number leads to the segment behind, which the sheet may not name. If no
segment that is removed is named once more, nothing changes but what is named.

## Main definitions

* `Chart.lineTexts`: the texts of the segments on a line
* `Text.survivors`: texts, each of which is kept, changed or removed
* `Sheet.asked`: the edits that the entries of a sheet ask for
* `Sheet.NamesText`, `Sheet.NamesChoice`: what the entries of a sheet are about

## Main results

* `Chart.lineTexts_replaceText`: one edit changes one text of one line
* `Chart.replaceInOrder_survivors`: edits in descending order change what they name
* `Chart.filter_mergeSort`: sorting keeps the order of the edits for one segment
* `Sheet.applyChoices_rechosen`: entries for choices change what they name
* `Sheet.apply_spares`: applying a sheet spares what it does not name
* `Sheet.apply_displaced`: a segment that is removed and named once more
-/

namespace NovelChart

/-! ### Texts that are kept, changed or removed -/

namespace Text

/-- What is left of texts, each of which is kept, changed or removed according to its number. -/
def survivors (fate : Nat → String → Option String) (texts : List String) : List String :=
  texts.zipIdx.filterMap fun (text, index) => fate index text

variable {fate : Nat → String → Option String} {texts front back : List String} {old : String}
  {k : Nat}

theorem survivors_cons (fate : Nat → String → Option String) (text : String)
    (texts : List String) : survivors fate (text :: texts) =
      (fate 0 text).toList ++ survivors (fun index => fate (index + 1)) texts := by
  rw [survivors, List.zipIdx_cons, List.zipIdx_succ, List.filterMap_cons, List.filterMap_map]
  dsimp only
  cases fate 0 text with
  | none => rfl
  | some new => rfl

theorem survivors_some (texts : List String) : survivors (fun _ => some) texts = texts := by
  induction texts with
  | nil => rfl
  | cons text texts ih => rw [survivors_cons, ih, Option.toList_some, List.singleton_append]

/-- While nothing up to a number is removed, the text with this number is where it was. -/
theorem survivors_update (new : Option String) (whole : ∀ j ≤ k, ∀ text, fate j text ≠ none)
    (cut : survivors fate texts = front ++ old :: back) (length : front.length = k) :
    survivors (Function.update fate k fun _ => new) texts = front ++ (new.toList ++ back) := by
  -- The number and the fates are counted down along with the texts.
  induction texts generalizing fate front k with
  | nil =>
    have absurd := congrArg List.length cut
    simp [survivors] at absurd
  | cons text texts ih =>
    obtain ⟨first, present⟩ := Option.ne_none_iff_exists'.mp (whole 0 (Nat.zero_le k) text)
    rw [survivors_cons, present, Option.toList_some, List.singleton_append] at cut
    rw [survivors_cons]
    cases k with
    | zero =>
      obtain rfl := List.length_eq_zero_iff.mp length
      obtain ⟨_, rest⟩ := List.cons.inj cut
      rw [Function.update_self, List.nil_append, ← rest]
      rfl
    | succ k =>
      obtain ⟨begin, front, rfl⟩ := List.exists_cons_of_length_eq_add_one length
      obtain ⟨rfl, rest⟩ := List.cons.inj cut
      have changed := ih (fun j low => whole (j + 1) (Nat.succ_le_succ low)) rest
        (Nat.succ.inj length)
      have shifted : (fun index => Function.update fate (k + 1) (fun _ => new) (index + 1)) =
          Function.update (fun index => fate (index + 1)) k fun _ => new := by
        funext index
        simp only [Function.update_apply, Nat.add_right_cancel_iff]
      rw [Function.update_of_ne (Nat.succ_ne_zero k).symm, present, shifted, changed]
      rfl

end Text

/-! ### One edit -/

namespace Chart

variable {c c' : Chart} {id : TextId} {text : String} {line : Nat} {block : TextBlock}

/-- The texts of the segments on a line. -/
def lineTexts (c : Chart) (line : Nat) : List String :=
  match c.commands[line]?.bind Command.text? with
  | some block => (blockTexts block).map Prod.snd
  | none => []

theorem lineTexts_of_block (there : c.block line = .ok block) :
    c.lineTexts line = (blockTexts block).map Prod.snd := by
  obtain ⟨command, found, carries⟩ := block_eq_ok.mp there
  rw [lineTexts, found, Option.bind_some, carries]

theorem lineTexts_setBlock (there : c.block line = .ok block) (block' : TextBlock) (i : Nat) :
    (c.setBlock line block').lineTexts i =
      if i = line then (blockTexts block').map Prod.snd else c.lineTexts i := by
  obtain ⟨command, found, carries⟩ := block_eq_ok.mp there
  rw [lineTexts, setBlock, List.getElem?_modify]
  by_cases here : i = line
  · subst here
    simp only [found, carries, if_true, Option.map_eq_map, Option.map_some, Option.bind_some,
      Command.text?_mapText]
  · simp only [here, Ne.symm here, if_false, Option.map_eq_map, Option.map_id', lineTexts]

/-- The texts of a block with plain text in place of a segment. -/
theorem blockTexts_replace {seg : Segment} {index : Nat}
    (found : (Segment.ofTokens block.tokens)[index]? = some seg) (text : String) :
    ∃ front old back, (blockTexts block).map Prod.snd = front ++ old :: back ∧
      front.length = index ∧
      (blockTexts { block with tokens := seg.replace block.tokens (plainTokens text) }).map
        Prod.snd = front ++ ((Text.settled? text).toList ++ back) := by
  obtain ⟨front, back, cut, length⟩ := exists_cut_at found
  obtain ⟨_, changed⟩ := Segment.replace_step (isPlain_plainTokens text) _ cut
  have before := map_some_blockTexts block
  rw [Segment.texts, cut, List.map_append, List.map_cons] at before
  obtain ⟨front', rest, same, first, last⟩ := List.map_eq_append_iff.mp before
  obtain ⟨old, back', rfl, _, behind⟩ := List.map_eq_cons_iff.mp last
  refine ⟨front', old, back', same, ?_, ?_⟩
  · have lengths := congrArg List.length first
    rw [List.length_map, List.length_map] at lengths
    rw [lengths, length]
  · refine List.map_injective_iff.mpr (fun _ _ => Option.some.inj) ?_
    rw [map_some_blockTexts, changed, Segment.texts_plainTokens, ← first, ← behind,
      List.map_append, List.map_append]

/-- An edit leaves the texts of other lines alone and changes one on its own, which is removed only
if nothing is left of the new text. -/
theorem lineTexts_replaceText (edited : c.replaceText id text = .ok c') :
    ∃ front old back new, c.lineTexts id.line = front ++ old :: back ∧ front.length = id.index ∧
      (Text.settled? text ≠ none → new ≠ none) ∧ ∀ line, c'.lineTexts line =
        if line = id.line then front ++ (Option.toList new ++ back) else c.lineTexts line := by
  obtain ⟨_, block, seg, there, found, same⟩ := replaceText_cases edited
  obtain ⟨front, old, back, texts, length, changed⟩ := blockTexts_replace found text
  rw [← lineTexts_of_block there] at texts
  rcases same with rfl | rfl
  · -- The text is there already.
    refine ⟨front, old, back, some old, texts, length, fun _ => Option.some_ne_none old,
      fun line => ?_⟩
    by_cases here : line = id.line
    · rw [if_pos here, here, texts, Option.toList_some, List.singleton_append]
    · rw [if_neg here]
  · refine ⟨front, old, back, Text.settled? text, texts, length, fun left => left,
      fun line => ?_⟩
    rw [lineTexts_setBlock there, changed]

/-! ### Many edits -/

/-- Edits at one place. -/
def SamePlace (x y : TextId × String) : Prop :=
  x.1.line = y.1.line ∧ x.1.index = y.1.index

instance (x y : TextId × String) : Decidable (SamePlace x y) :=
  inferInstanceAs (Decidable (_ ∧ _))

variable {edits : List (TextId × String)}

/-- Sorting keeps the order of the edits at one place. -/
theorem filter_mergeSort (edits : List (TextId × String)) (line index : Nat) :
    (edits.mergeSort notBefore).filter (fun x => x.1.line = line ∧ x.1.index = index) =
      edits.filter fun x => x.1.line = line ∧ x.1.index = index := by
  have together : (edits.filter fun x => x.1.line = line ∧ x.1.index = index).Pairwise
      fun x y => notBefore x y = true := by
    refine List.pairwise_of_forall_mem_list fun x member y member' => notBefore_iff.mpr (.inr ?_)
    have here := List.of_mem_filter member
    have here' := List.of_mem_filter member'
    rw [decide_eq_true_iff] at here here'
    omega
  -- Both lists have the same length, and one of them is part of the other.
  have inside := (List.sublist_mergeSort notBefore_trans notBefore_total together
    List.filter_sublist).filter fun x => x.1.line = line ∧ x.1.index = index
  rw [List.filter_filter] at inside
  simp only [Bool.and_self] at inside
  exact (inside.eq_of_length
    ((List.mergeSort_perm edits notBefore).filter _).length_eq.symm).symm

/-- What holds of the edits at one place still does once they are sorted. -/
theorem pairwise_mergeSort_place {R : TextId × String → TextId × String → Prop}
    (pairwise : edits.Pairwise fun x y => SamePlace x y → R x y) :
    (edits.mergeSort notBefore).Pairwise fun x y => SamePlace x y → R x y := by
  rw [List.pairwise_iff_forall_sublist] at pairwise ⊢
  intro x y pair same
  refine pairwise ?_ same
  have kept := pair.filter fun z => z.1.line = x.1.line ∧ z.1.index = x.1.index
  rw [filter_mergeSort, List.filter_eq_self.mpr] at kept
  · exact kept.trans List.filter_sublist
  · simp [same.1, same.2]

/-- Edits in descending order change what they name, if none of them follows one at its place that
leaves nothing. Edits that were made before are behind those that follow, or at their places and
left something there. -/
theorem replaceInOrder_survivors {c₀ : Chart} (fate : Nat → Nat → String → Option String)
    (descending : edits.Pairwise fun x y => notBefore x y = true)
    (once : edits.Pairwise fun x y => SamePlace x y → Text.settled? x.2 ≠ none)
    (whole : ∀ x ∈ edits, ∀ j ≤ x.1.index, ∀ text, fate x.1.line j text ≠ none)
    (texts : ∀ line, c.lineTexts line = Text.survivors (fate line) (c₀.lineTexts line))
    (done : replaceInOrder edits c = (.ok (), c')) :
    ∃ fate' : Nat → Nat → String → Option String,
      (∀ line, c'.lineTexts line = Text.survivors (fate' line) (c₀.lineTexts line)) ∧
      ∀ line index, (∀ x ∈ edits, ¬(x.1.line = line ∧ x.1.index = index)) →
        fate' line index = fate line index := by
  -- `fate` is what became of every text so far, and each edit settles that of one more.
  induction edits generalizing c fate with
  | nil =>
    cases done
    exact ⟨fate, texts, fun _ _ _ => rfl⟩
  | cons x edits ih =>
    obtain ⟨id, text⟩ := x
    obtain ⟨behind, descending⟩ := List.pairwise_cons.mp descending
    obtain ⟨left, once⟩ := List.pairwise_cons.mp once
    obtain ⟨whole₁, whole⟩ := List.forall_mem_cons.mp whole
    rw [replaceInOrder] at done
    split at done
    · next c₁ edited =>
      obtain ⟨front, old, back, new, cut, length, present, changed⟩ :=
        lineTexts_replaceText edited
      have texts₁ : ∀ line, c₁.lineTexts line = Text.survivors
          (Function.update fate id.line
            (Function.update (fate id.line) id.index fun _ => new) line)
          (c₀.lineTexts line) := by
        intro line
        rw [changed]
        by_cases here : line = id.line
        · subst here
          rw [if_pos rfl, Function.update_self]
          exact (Text.survivors_update new whole₁ ((texts _).symm.trans cut) length).symm
        · rw [if_neg here, Function.update_of_ne here, texts]
      have whole₁ : ∀ y ∈ edits, ∀ j ≤ y.1.index, ∀ text,
          Function.update fate id.line
            (Function.update (fate id.line) id.index fun _ => new) y.1.line j text ≠ none := by
        intro y member j low text'
        rw [update_place]
        by_cases here : y.1.line = id.line ∧ j = id.index
        · -- The edit that follows is not behind this one, so both are at one place.
          rw [if_pos here]
          have before := notBefore_iff.mp (behind y member)
          exact present (left y member ⟨here.1.symm, by dsimp only at before ⊢; omega⟩)
        · rw [if_neg here]
          exact whole y member j low text'
      obtain ⟨fate', texts', kept⟩ := ih _ descending once whole₁ texts₁ done
      refine ⟨fate', texts', fun line index unnamed => ?_⟩
      obtain ⟨other, unnamed⟩ := List.forall_mem_cons.mp unnamed
      rw [kept line index unnamed, update_place,
        if_neg fun here => other ⟨here.1.symm, here.2.symm⟩]
    · cases done

theorem replaceText_mapBlocks (edited : c.replaceText id text = .ok c') :
    ∃ g, c' = c.mapBlocks g := by
  obtain ⟨_, block, seg, _, _, rfl | rfl⟩ := replaceText_cases edited
  · exact ⟨_, c'.mapBlocks_id.symm⟩
  · exact ⟨_, c.setBlock_eq_mapBlocks id.line _⟩

/-- Edits of segments change text blocks only. -/
theorem replaceInOrder_mapBlocks (edits : List (TextId × String)) (c : Chart) :
    ∃ g, (replaceInOrder edits c).2 = c.mapBlocks g := by
  induction edits generalizing c with
  | nil => exact ⟨_, c.mapBlocks_id.symm⟩
  | cons x edits ih =>
    obtain ⟨id, text⟩ := x
    rw [replaceInOrder]
    split
    · next c₁ edited =>
      obtain ⟨g, rfl⟩ := replaceText_mapBlocks edited
      obtain ⟨h, same⟩ := ih (c.mapBlocks g)
      exact ⟨_, same.trans (c.mapBlocks_mapBlocks g h)⟩
    · exact ⟨_, c.mapBlocks_id.symm⟩

theorem zipIdx_lineTexts (block : TextBlock) :
    ((blockTexts block).map Prod.snd).zipIdx = (blockTexts block).map Prod.swap := by
  have injective : Function.Injective (some : String → Option String) :=
    fun _ _ => Option.some.inj
  refine List.map_injective_iff.mpr (injective.prodMap Function.injective_id) ?_
  rw [← List.zipIdx_map, map_some_blockTexts, zipIdx_texts, List.map_map]
  rfl

/-- A chart with other text blocks has the texts that survive, line by line. -/
theorem texts_mapBlocks {g : Nat → TextBlock → TextBlock}
    {fate : Nat → Nat → String → Option String}
    (survive : ∀ line, (c.mapBlocks g).lineTexts line =
      Text.survivors (fate line) (c.lineTexts line))
    (name : String) :
    ((c.mapBlocks g).texts name).map (fun (id, text) => (id.line, text)) =
      (c.texts name).filterMap fun (id, text) =>
        (fate id.line id.index text).map fun new => (id.line, new) := by
  rw [texts, lines, mapBlocks, zipIdx_mapIdx, List.flatMap_map, List.map_flatMap, texts, lines,
    List.filterMap_flatMap]
  apply List.flatMap_congr
  rintro ⟨command, line⟩ inside
  simp only [Command.text?_mapText]
  cases carries : command.text? with
  | none => rfl
  | some block =>
    have there : c.block line = .ok block :=
      block_eq_ok.mpr ⟨command, List.mem_zipIdx_iff_getElem?.mp inside, carries⟩
    have onLine := survive line
    rw [lineTexts_of_block (block_mapBlocks there g), lineTexts_of_block there, Text.survivors,
      zipIdx_lineTexts, List.filterMap_map] at onLine
    have paired := congrArg (List.map (Prod.mk line)) onLine
    rw [List.map_map, List.map_filterMap] at paired
    simp only [Option.map_some, List.map_map, List.filterMap_map]
    exact paired

theorem texts_rechosen (c : Chart) (g : Nat → Nat → Option String) (name : String) :
    (c.rechosen g).texts name = c.texts name := by
  rw [texts, lines, rechosen, zipIdx_mapIdx, List.flatMap_map]
  simp only [Command.text?_rechosen]
  rfl

end Chart

/-! ### Entries -/

namespace Sheet

variable {c : Chart} {s : Sheet} {e : Encoding} {bytes : List UInt8} {count : Nat}

/-- The edits that the entries of a sheet ask for, in their order. -/
def asked (s : Sheet) (c : Chart) : List (TextId × String) :=
  (edits s.chart (c.texts s.chart) s.texts).2.toOption.getD []

/-- The sheet has an entry for a segment. -/
def NamesText (s : Sheet) (id : TextId) : Prop :=
  ∃ entry ∈ s.texts, TextId.ofText entry.id = .ok id

/-- The sheet has an entry for a choice. -/
def NamesChoice (s : Sheet) (line index : Nat) : Prop :=
  ∃ entry ∈ s.choices, entry.line = line ∧ entry.index = index

/-- Every edit that is asked for comes from an entry, under the name of the chart, for a segment that
is there with its wording. -/
theorem mem_edits_entry {name : String} {current : List (TextId × String)}
    {entries : List TextEntry} {made : List (TextId × String)}
    (read_off : (edits name current entries).2 = .ok made) :
    ∀ x ∈ made, x.1.name = name ∧ ∃ entry ∈ entries, TextId.ofText entry.id = .ok x.1 ∧
      entry.replacement = x.2 ∧ current.lookup x.1 = some entry.wording := by
  induction entries generalizing made with
  | nil =>
    cases read_off
    rintro _ ⟨⟩
  | cons entry entries ih =>
    have later : ∀ {made}, (edits name current entries).2 = .ok made → ∀ x ∈ made,
        x.1.name = name ∧ ∃ other ∈ entry :: entries, TextId.ofText other.id = .ok x.1 ∧
          other.replacement = x.2 ∧ current.lookup x.1 = some other.wording := by
      intro made read_off x member
      obtain ⟨named, other, among, same⟩ := ih read_off x member
      exact ⟨named, other, List.mem_cons_of_mem entry among, same⟩
    rw [edits] at read_off
    split at read_off
    · exact later read_off
    · split at read_off
      · cases read_off
      · next id same =>
        split at read_off
        · cases read_off
        · next named =>
          rcases rest : edits name current entries with ⟨notices, more⟩
          rw [rest] at read_off later
          dsimp only at read_off later
          split at read_off
          · next there =>
            cases more with
            | error failure => cases read_off
            | ok more =>
              cases read_off
              exact List.forall_mem_cons.mpr
                ⟨⟨not_not.mp named, entry, List.mem_cons_self, same, rfl, there⟩, later rfl⟩
          · exact later read_off

theorem mem_edits {name : String} {current : List (TextId × String)} {entries : List TextEntry}
    {made : List (TextId × String)} (read_off : (edits name current entries).2 = .ok made) :
    ∀ x ∈ made, x.1.name = name ∧ ∃ entry ∈ entries, TextId.ofText entry.id = .ok x.1 := by
  intro x member
  obtain ⟨named, entry, among, same, _⟩ := mem_edits_entry read_off x member
  exact ⟨named, entry, among, same⟩

/-- When a sheet was applied, the edits that it asked for were made, and then its entries for
choices were. -/
theorem apply_eq_ok (applied : (s.apply c).result = .ok count) :
    ∃ start c₁, (edits s.chart (c.texts s.chart) s.texts).2 = .ok (s.asked c) ∧
      Chart.replaceInOrder ((s.asked c).mergeSort Chart.notBefore) c = (.ok (), c₁) ∧
      (applyChoices c₁.choices s.choices start c₁).result = .ok count ∧
      (s.apply c).chart = (applyChoices c₁.choices s.choices start c₁).chart := by
  simp only [apply, asked, Chart.replaceTexts] at applied ⊢
  generalize edits s.chart (c.texts s.chart) s.texts = read_off at applied ⊢
  obtain ⟨notices, made⟩ := read_off
  cases made with
  | error failure => cases applied
  | ok made =>
    dsimp only [Except.toOption, Option.getD_some] at applied ⊢
    generalize Chart.replaceInOrder (made.mergeSort Chart.notBefore) c = edited at applied ⊢
    obtain ⟨done, c₁⟩ := edited
    cases done with
    | error failure => cases applied
    | ok _ => exact ⟨made.length, c₁, rfl, rfl, applied, rfl⟩

/-- Entries for choices change what they name. -/
theorem applyChoices_rechosen {current : List Choice} {entries : List ChoiceEntry}
    (has : ∀ choice ∈ current, c.HasChoice choice ∧ choice.index < Text.positionLimit)
    {g : Nat → Nat → Option String} {start : Nat}
    (applied : (applyChoices current entries start (c.rechosen g)).result = .ok count) :
    ∃ g' : Nat → Nat → Option String,
      (applyChoices current entries start (c.rechosen g)).chart = c.rechosen g' ∧
      ∀ line index, (∀ entry ∈ entries, ¬(entry.line = line ∧ entry.index = index)) →
        g' line index = g line index := by
  induction entries generalizing g start with
  | nil => exact ⟨g, rfl, fun _ _ _ => rfl⟩
  | cons entry entries ih =>
    rw [applyChoices] at applied ⊢
    split at applied
    · next empty =>
      rw [if_pos empty]
      obtain ⟨g', same, kept⟩ := ih applied
      exact ⟨g', same, fun line index unnamed =>
        kept line index (List.forall_mem_cons.mp unnamed).2⟩
    · next filled =>
      rw [if_neg filled]
      split at applied
      · next matched =>
        rw [if_pos matched]
        obtain ⟨choice, among, made⟩ := List.any_eq_true.mp matched
        obtain ⟨⟨sameLine, sameIndex⟩, _⟩ := fromChoice_iff.mp made
        obtain ⟨there, small⟩ := has choice among
        split at applied
        · next c₁ edited =>
          have encodable : c.encoding.check entry.replacement = .ok () := by
            simp only [Chart.replaceChoice, Chart.checkText, bind_eq_ok, mapError_eq_ok] at edited
            obtain ⟨_, checked, _⟩ := edited
            exact checked
          have replaced := Chart.replaceChoice_rechosen (g := g) there small encodable
          rw [sameLine, sameIndex] at replaced
          rw [edited] at replaced
          cases replaced
          obtain ⟨g', same, kept⟩ := ih applied
          refine ⟨g', same, fun line index unnamed => ?_⟩
          obtain ⟨other, unnamed⟩ := List.forall_mem_cons.mp unnamed
          rw [kept line index unnamed, update_place,
            if_neg fun here => other ⟨here.1.symm, here.2.symm⟩]
        · cases applied
      · next stale =>
        rw [if_neg stale]
        obtain ⟨g', same, kept⟩ := ih applied
        exact ⟨g', same, fun line index unnamed =>
          kept line index (List.forall_mem_cons.mp unnamed).2⟩

/-- Applying a sheet spares what it does not name, if it names no segment once more of which it
leaves nothing. The segments of every line keep their order; those without an entry keep their
texts, and so do choices without one. -/
theorem apply_spares (read : Chart.ofBytes e bytes = .ok c)
    (applied : (s.apply c).result = .ok count)
    (once : (s.asked c).Pairwise fun x y => x.1 = y.1 → Text.settled? x.2 ≠ none) :
    (∃ fate : Nat → Nat → String → Option String,
      (∀ line index text, ¬s.NamesText ⟨s.chart, line, index⟩ →
        fate line index text = some text) ∧
      ((s.apply c).chart.texts s.chart).map (fun (id, text) => (id.line, text)) =
        (c.texts s.chart).filterMap fun (id, text) =>
          (fate id.line id.index text).map fun new => (id.line, new)) ∧
    ∃ wording : Choice → String,
      (∀ choice, ¬s.NamesChoice choice.line choice.index → wording choice = choice.text) ∧
      (s.apply c).chart.choices = c.choices.map fun choice =>
        { choice with text := wording choice } := by
  obtain ⟨start, c₁, read_off, edited, applied, chart⟩ := apply_eq_ok applied
  have entries := mem_edits read_off
  -- All edits are under one name, so those at one place have one identifier.
  have apart : (s.asked c).Pairwise fun x y =>
      Chart.SamePlace x y → Text.settled? x.2 ≠ none := by
    refine once.imp_of_mem fun {x y} member member' left same => left ?_
    rw [TextId.mk.injEq]
    exact ⟨(entries x member).1.trans (entries y member').1.symm, same⟩
  obtain ⟨fate, survive, kept⟩ := Chart.replaceInOrder_survivors (fun _ _ => some)
    (Chart.sorted_mergeSort _) (Chart.pairwise_mergeSort_place apart)
    (fun _ _ _ _ _ => Option.some_ne_none _) (fun line => (Text.survivors_some _).symm) edited
  obtain ⟨h, blocks⟩ :=
    Chart.replaceInOrder_mapBlocks ((s.asked c).mergeSort Chart.notBefore) c
  rw [edited] at blocks
  subst blocks
  -- The choices are still where they were read.
  have has : ∀ choice ∈ (c.mapBlocks h).choices,
      (c.mapBlocks h).HasChoice choice ∧ choice.index < Text.positionLimit := by
    intro choice member
    rw [Chart.choices_mapBlocks] at member
    obtain ⟨there, small⟩ := Chart.hasChoice_of_mem read member
    exact ⟨there.mapBlocks h, small⟩
  have applied' : (applyChoices (c.mapBlocks h).choices s.choices start
      ((c.mapBlocks h).rechosen fun _ _ => none)).result = .ok count := by
    rwa [Chart.rechosen_none]
  obtain ⟨g, same, kept'⟩ := applyChoices_rechosen has applied'
  rw [Chart.rechosen_none] at same
  rw [chart, same]
  refine ⟨⟨fate, fun line index text unnamed => ?_, ?_⟩,
    fun choice => (g choice.line choice.index).getD choice.text, fun choice unnamed => ?_, ?_⟩
  · rw [kept line index]
    rintro x member ⟨rfl, rfl⟩
    obtain ⟨named, entry, among, read⟩ := entries x (List.mem_mergeSort.mp member)
    rw [← named] at unnamed
    exact unnamed ⟨entry, among, read⟩
  · rw [Chart.texts_rechosen]
    exact Chart.texts_mapBlocks survive s.chart
  · dsimp only
    rw [kept' choice.line choice.index, Option.getD_none]
    exact fun entry member here => unnamed ⟨entry, member, here⟩
  · rw [Chart.choices_rechosen fun choice member => (has choice member).1, Chart.choices_mapBlocks]

/-- A sheet for the sample that names its first segment twice, and a choice that is not there. -/
def sampleTwice (first second : String) : Sheet where
  chart := "c:"
  texts := [⟨"lsb:text:c::0:0", "Hi;", first⟩, ⟨"lsb:text:c::0:0", "Hi;", second⟩]
  choices := [⟨1, 7, "Go", "Stop"⟩]

/-- Edits that are asked for in descending order are made as they stand. -/
theorem apply_eq_of_sorted (made : List (TextId × String)) {c₁ : Chart}
    (read_off : edits s.chart (c.texts s.chart) s.texts = ([], .ok made))
    (sorted : made.Pairwise fun x y => Chart.notBefore x y = true)
    (edited : Chart.replaceInOrder made c = (.ok (), c₁)) :
    s.apply c = applyChoices c₁.choices s.choices made.length c₁ := by
  simp only [apply, read_off, Chart.replaceTexts, List.mergeSort_of_pairwise sorted, edited]
  rfl

theorem not_namesText_sampleTwice (first second : String) :
    ¬(sampleTwice first second).NamesText ⟨"c:", 0, 1⟩ := by
  have other : TextId.ofText "lsb:text:c::0:0" ≠ .ok ⟨"c:", 0, 1⟩ := by
    decide
  rintro ⟨entry, member, same⟩
  simp only [sampleTwice, List.mem_cons, List.not_mem_nil, or_false] at member
  rcases member with rfl | rfl
  · exact other same
  · exact other same

set_option maxRecDepth 10000 in
/-- The first segment of the sample is changed and then removed; the second one stays, and so does
the choice. -/
theorem apply_spares_sample :
    ((sampleTwice "Yo" "\n").apply Chart.sample.marked).result = .ok 2 ∧
      (0, "ｱ") ∈ (((sampleTwice "Yo" "\n").apply Chart.sample.marked).chart.texts "c:").map
        (fun (id, text) => (id.line, text)) ∧
      ((sampleTwice "Yo" "\n").apply Chart.sample.marked).chart.choices = [⟨1, 0, "Go", 1⟩] := by
  have read : Chart.ofBytes .cp932 Chart.sampleBytes = .ok Chart.sample.marked := by
    rfl
  have applied : ((sampleTwice "Yo" "\n").apply Chart.sample.marked).result = .ok 2 := by
    rw [apply_eq_of_sorted [(⟨"c:", 0, 0⟩, "Yo"), (⟨"c:", 0, 0⟩, "\n")] (by rfl) (by decide)
      (by rfl)]
    rfl
  have once : ((sampleTwice "Yo" "\n").asked Chart.sample.marked).Pairwise
      fun x y => x.1 = y.1 → Text.settled? x.2 ≠ none := by
    decide
  obtain ⟨⟨fate, kept, texts⟩, wording, kept', choices⟩ := apply_spares read applied once
  have before : Chart.sample.marked.texts "c:" =
      [(⟨"c:", 0, 0⟩, "Hi;"), (⟨"c:", 0, 1⟩, "ｱ")] := by
    decide
  refine ⟨applied, ?_, ?_⟩
  · rw [show (sampleTwice "Yo" "\n").chart = "c:" from rfl, before] at texts
    rw [texts, List.mem_filterMap]
    refine ⟨(⟨"c:", 0, 1⟩, "ｱ"), by decide, ?_⟩
    dsimp only
    rw [kept 0 1 "ｱ" (not_namesText_sampleTwice _ _), Option.map_some]
  · have unnamed : ¬(sampleTwice "Yo" "\n").NamesChoice 1 0 := by
      rintro ⟨entry, member, _, absurd⟩
      cases List.mem_singleton.mp member
      cases absurd
    have there : Chart.sample.marked.choices = [⟨1, 0, "Go", 1⟩] := by
      decide
    rw [choices, there, List.map_singleton, kept' ⟨1, 0, "Go", 1⟩ unnamed]

set_option maxRecDepth 10000 in
/-- The first segment of the sample is removed and then named once more, which changes the second
one although the sheet does not name it. -/
theorem apply_displaced :
    Chart.ofBytes .cp932 Chart.sampleBytes = .ok Chart.sample.marked ∧
      Chart.sample.marked.texts "c:" = [(⟨"c:", 0, 0⟩, "Hi;"), (⟨"c:", 0, 1⟩, "ｱ")] ∧
      ¬(sampleTwice "\n" "x").NamesText ⟨"c:", 0, 1⟩ ∧
      ((sampleTwice "\n" "x").apply Chart.sample.marked).result = .ok 2 ∧
      ((sampleTwice "\n" "x").apply Chart.sample.marked).chart.texts "c:" =
        [(⟨"c:", 0, 0⟩, "x")] := by
  rw [apply_eq_of_sorted [(⟨"c:", 0, 0⟩, "\n"), (⟨"c:", 0, 0⟩, "x")] (by rfl) (by decide)
    (by rfl)]
  exact ⟨by rfl, by decide, not_namesText_sampleTwice _ _, by rfl, by decide⟩

end Sheet

end NovelChart
