import NovelChart.Proofs.Access
import NovelChart.Proofs.Rewording

/-!
# Charts with new texts for their menu choices

A menu holds its choices in the groups of its tail, each with a text and a jump. The text of a
choice is replaced through the name of its field, which is put together from a name and a number and
taken apart again. Since no edit of a choice moves another one, new texts may be put in one after
another, and the outcome can be said at once.

## Main definitions

* `Chart.HasChoice`: a line is a menu, and a choice stands in one of its groups
* `Chart.rechosen`: a chart with new texts for some choices

## Main results

* `Chart.hasChoice_of_mem`, `Chart.pairwise_choices`: the choices of a chart, in ascending order
* `Chart.replaceChoice_rechosen`: one more new text
* `Chart.choices_rechosen`, `Chart.choices_reworded`: the choices after new texts
-/

namespace NovelChart

/-! ### Menus -/

theorem zipIdx_mapIdx {α β : Type} (l : List α) (f : Nat → α → β) :
    (l.mapIdx f).zipIdx = l.zipIdx.map fun (x, i) => (f i x, i) := by
  apply List.ext_getElem?
  intro i
  rw [List.getElem?_map, List.getElem?_zipIdx, List.getElem?_zipIdx, List.getElem?_mapIdx,
    Option.map_map, Option.map_map]
  simp only [Function.comp_def, Nat.zero_add]

/-- The parameters of a menu. -/
def Schema.menu : Schema :=
  ⟨[⟨"Target", .str⟩, ⟨"Cancel", .flag⟩], some [⟨"Text", .str⟩, ⟨"Jump", .int⟩], false⟩

theorem Opcode.schema?_menu : Opcode.menu.schema? = some Schema.menu :=
  rfl

variable {g : Nat → Option String} {index : Nat}

/-- The text of a choice is found by its name. -/
theorem Schema.slotNamed?_choice (small : index < Text.positionLimit) :
    Schema.menu.slotNamed? ("Text[" ++ toString index ++ "]") =
      some (.tail index 0, ⟨"Text", .str⟩) := by
  have named : "Text[" ++ toString index ++ "]" = Field.nameInGroup ⟨"Text", .str⟩ index := rfl
  rw [named]
  exact slotNamed?_label Opcode.schema?_menu rfl small (Text.sameLetters_self _)

/-- Parameters with new texts for some groups of the tail, each of which has its text in front. -/
def Parameters.rechosen (g : Nat → Option String) (p : Parameters) : Parameters :=
  { p with tail := p.tail.mapIdx fun i values =>
      match g i with
      | some text => values.set 0 (.str text)
      | none => values }

theorem Parameters.set_rechosen (g : Nat → Option String) (p : Parameters) (index : Nat)
    (text : String) : (p.rechosen g).set (.str text) (.tail index 0) =
      p.rechosen (Function.update g index (some text)) := by
  have tails : ((p.rechosen g).set (.str text) (.tail index 0)).tail =
      (p.rechosen (Function.update g index (some text))).tail := by
    apply List.ext_getElem?
    intro i
    rw [set, rechosen, rechosen, List.getElem?_modify, List.getElem?_mapIdx, List.getElem?_mapIdx,
      Option.map_eq_map, Option.map_map]
    congr 1
    funext values
    rw [Function.comp_apply]
    by_cases here : index = i
    · subst here
      rw [if_pos rfl, Function.update_self]
      cases g index with
      | none => rfl
      | some old => exact List.set_set ..
    · rw [if_neg here, Function.update_of_ne (Ne.symm here)]
  exact congrArg (fun tail => { p with tail := tail }) tails

/-- A command with new texts for some of its choices, if it is a menu. -/
def Command.rechosen (g : Nat → Option String) (command : Command) : Command :=
  if command.opcode = .menu then command.mapParams (Parameters.rechosen g) else command

section

variable {command : Command} {params : Parameters} (menu : command.opcode = .menu)
  (typed : command.body = .typed params)

include menu typed

theorem menuChoices_eq (line : Nat) : Chart.menuChoices command line =
    params.tail.zipIdx.map fun (values, index) => ⟨line, index,
      (values[0]?.bind Value.asStr?).getD "", (values[1]?.bind Value.asInt?).getD 0⟩ := by
  rw [Chart.menuChoices, Command.params?, typed]
  exact if_pos menu

theorem Command.rechosen_eq (g : Nat → Option String) :
    command.rechosen g = { command with body := .typed (params.rechosen g) } := by
  rw [rechosen, if_pos menu, mapParams, typed]

theorem Command.opcode_rechosen (g : Nat → Option String) :
    (command.rechosen g).opcode = .menu := by
  rw [rechosen_eq menu typed]
  exact menu

theorem Command.body_rechosen (g : Nat → Option String) :
    (command.rechosen g).body = .typed (params.rechosen g) := by
  rw [rechosen_eq menu typed]

/-- The text of a choice is stored where it belongs. -/
theorem Command.setField_rechosen {text old : String} {more : List Value}
    (held : params.tail[index]? = some (.str old :: more)) (small : index < Text.positionLimit) :
    (command.rechosen g).setField ("Text[" ++ toString index ++ "]") (.str text) =
      .ok (command.rechosen (Function.update g index (some text))) := by
  have slot : ((params.rechosen g).get? (.tail index 0)).isSome = true := by
    rw [Parameters.get?, Parameters.rechosen, List.getElem?_mapIdx, held]
    cases g index <;> rfl
  rw [setField, opcode_rechosen menu typed, Opcode.schema?_menu]
  dsimp only
  rw [Schema.slotNamed?_choice small]
  refine store_eq_ok.mpr
    ⟨rfl, Schema.menu, params.rechosen g, ?_, body_rechosen menu typed g, slot, ?_⟩
  · rw [opcode_rechosen menu typed, Opcode.schema?_menu]
  · rw [Parameters.set_rechosen, rechosen_eq menu typed, rechosen_eq menu typed]

end

/-- A command is a menu with parameters, or it has no choices to be changed. -/
theorem menu_cases (command : Command) :
    (command.opcode = .menu ∧ ∃ params, command.body = .typed params) ∨
      (∀ line, Chart.menuChoices command line = []) ∧ ∀ g, command.rechosen g = command := by
  obtain ⟨opcode, indent, flags, body⟩ := command
  cases body with
  | raw bytes => exact .inr ⟨fun _ => rfl, fun _ => ite_self _⟩
  | typed params =>
    by_cases menu : opcode = .menu
    · exact .inl ⟨menu, params, rfl⟩
    · exact .inr ⟨fun _ => if_neg menu, fun _ => if_neg menu⟩

theorem Command.text?_rechosen (g : Nat → Option String) (command : Command) :
    (command.rechosen g).text? = command.text? := by
  rcases menu_cases command with ⟨menu, params, typed⟩ | ⟨_, same⟩
  · rw [text?, text?, params?, params?, body_rechosen menu typed, typed]
    rfl
  · rw [same]

/-- Texts that the choices have already change nothing. -/
theorem Command.rechosen_same {command : Command}
    (same : ∀ params index text, command.body = .typed params → g index = some text →
      ∃ more, params.tail[index]? = some (.str text :: more)) : command.rechosen g = command := by
  rcases menu_cases command with ⟨menu, params, typed⟩ | ⟨_, unchanged⟩
  · have tails : (params.rechosen g).tail = params.tail := by
      apply List.ext_getElem?
      intro i
      rw [Parameters.rechosen, List.getElem?_mapIdx]
      cases new : g i with
      | none => exact Option.map_id'
      | some text =>
        obtain ⟨more, held⟩ := same params i text typed new
        rw [held]
        rfl
    have kept : params.rechosen g = params :=
      congrArg (fun tail => { params with tail := tail }) tails
    rw [rechosen_eq menu typed, kept, ← typed]
  · exact unchanged g

namespace Chart

/-- The chart with new texts for some choices, which are given by line and number. -/
def rechosen (c : Chart) (g : Nat → Nat → Option String) : Chart :=
  { c with commands := c.commands.mapIdx fun line command => command.rechosen (g line) }

/-- There is a choice: its line is a menu, and one of its groups holds the text and the jump. -/
def HasChoice (c : Chart) (choice : Choice) : Prop :=
  ∃ command params, c.commands[choice.line]? = some command ∧ command.opcode = .menu ∧
    command.body = .typed params ∧
    params.tail[choice.index]? = some [.str choice.text, .int choice.jump]

variable {c : Chart} {choice : Choice} {line : Nat} {g : Nat → Nat → Option String}

theorem getElem?_rechosen (c : Chart) (g : Nat → Nat → Option String) (line : Nat) :
    (c.rechosen g).commands[line]? =
      c.commands[line]?.map fun command => command.rechosen (g line) := by
  rw [rechosen, List.getElem?_mapIdx]

/-- A line whose choices have the new texts already stays. -/
theorem getElem?_rechosen_same (same : ∀ command params index text,
    c.commands[line]? = some command → command.body = .typed params → g line index = some text →
      ∃ more, params.tail[index]? = some (.str text :: more)) :
    (c.rechosen g).commands[line]? = c.commands[line]? := by
  rw [getElem?_rechosen]
  cases found : c.commands[line]? with
  | none => rfl
  | some command =>
    rw [Option.map_some, Command.rechosen_same]
    exact fun params index text => same command params index text found

theorem rechosen_same (same : ∀ line command params index text,
    c.commands[line]? = some command → command.body = .typed params → g line index = some text →
      ∃ more, params.tail[index]? = some (.str text :: more)) : c.rechosen g = c :=
  eq_of_lines fun line => getElem?_rechosen_same (same line)

theorem rechosen_none (c : Chart) : (c.rechosen fun _ _ => none) = c := by
  apply rechosen_same
  intro _ _ _ _ _ _ _ new
  cases new

theorem block_rechosen (g : Nat → Nat → Option String) {block : TextBlock}
    (there : c.block line = .ok block) : (c.rechosen g).block line = .ok block := by
  obtain ⟨command, found, carries⟩ := block_eq_ok.mp there
  refine block_eq_ok.mpr ⟨command.rechosen (g line), ?_, ?_⟩
  · rw [getElem?_rechosen, found, Option.map_some]
  · rw [Command.text?_rechosen, carries]

theorem HasChoice.mapBlocks (has : c.HasChoice choice) (h : Nat → TextBlock → TextBlock) :
    (c.mapBlocks h).HasChoice choice := by
  obtain ⟨command, params, found, menu, typed, held⟩ := has
  refine ⟨command.mapText (h choice.line),
    { params with text := params.text.map (h choice.line) }, ?_, ?_, ?_, held⟩
  · rw [getElem?_mapBlocks, found, Option.map_some]
  · rw [Command.mapText, Command.mapParams, typed]
    exact menu
  · rw [Command.mapText, Command.mapParams, typed]

theorem HasChoice.reworded (has : c.HasChoice choice) (f : Nat → Nat → Option String) :
    (c.reworded f).HasChoice choice :=
  has.mapBlocks fun line => TextBlock.fill (f line)

/-- A choice that is there gets another text. -/
theorem replaceChoice_rechosen {text : String} (has : c.HasChoice choice)
    (small : choice.index < Text.positionLimit) (encodable : c.encoding.check text = .ok ()) :
    (c.rechosen g).replaceChoice choice.line choice.index text = .ok (c.rechosen
      (Function.update g choice.line
        (Function.update (g choice.line) choice.index (some text)))) := by
  obtain ⟨command, params, found, menu, typed, held⟩ := has
  simp only [replaceChoice, bind_eq_ok, command_eq_ok, refuse_eq_ok, pure_eq_ok]
  refine ⟨(), ?_, command.rechosen (g choice.line), ?_, ?_, _,
    Command.setField_rechosen menu typed held small, ?_⟩
  · rw [checkText, mapError_eq_ok]
    exact encodable
  · rw [getElem?_rechosen, found, Option.map_some]
  · rw [Command.opcode_rechosen menu typed]
    exact fun absurd => absurd rfl
  · apply eq_of_lines
    intro i
    rw [List.getElem?_set, getElem?_rechosen, List.getElem?_mapIdx]
    by_cases here : choice.line = i
    · subst here
      obtain ⟨inside, _⟩ := List.getElem?_eq_some_iff.mp found
      rw [if_pos rfl, if_pos (by simpa [rechosen] using inside), Function.update_self, found,
        Option.map_some]
    · rw [if_neg here, Function.update_of_ne (Ne.symm here)]

/-! ### The choices of a chart -/

theorem mem_menuChoices {command : Command} (member : choice ∈ menuChoices command line) :
    choice.line = line ∧ command.opcode = .menu ∧ ∃ params values, command.body = .typed params ∧
      params.tail[choice.index]? = some values ∧
      choice.text = (values[0]?.bind Value.asStr?).getD "" ∧
      choice.jump = (values[1]?.bind Value.asInt?).getD 0 := by
  rcases menu_cases command with ⟨menu, params, typed⟩ | ⟨none, _⟩
  · rw [menuChoices_eq menu typed] at member
    obtain ⟨⟨values, index⟩, inside, rfl⟩ := List.mem_map.mp member
    exact ⟨rfl, menu, params, values, typed, List.mem_zipIdx_iff_getElem?.mp inside, rfl, rfl⟩
  · rw [none] at member
    cases member

/-- The choices of a chart are listed in ascending order. -/
theorem pairwise_choices (c : Chart) : c.choices.Pairwise fun x y =>
    x.line < y.line ∨ (x.line = y.line ∧ x.index < y.index) := by
  rw [choices, List.pairwise_flatMap]
  constructor
  · rintro ⟨command, line⟩ _
    dsimp only
    rcases menu_cases command with ⟨menu, params, typed⟩ | ⟨none, _⟩
    · rw [menuChoices_eq menu typed, List.pairwise_map]
      exact (pairwise_zipIdx _ 0).imp fun less => .inr ⟨rfl, less⟩
    · rw [none]
      exact .nil
  · refine (pairwise_zipIdx _ 0).imp fun less x member y member' => .inl ?_
    rw [(mem_menuChoices member).1, (mem_menuChoices member').1]
    exact less

/-- Every choice of a chart that was read has its text in front, and its number is small. -/
theorem hasChoice_of_mem {e : Encoding} {bytes : List UInt8}
    (read : Chart.ofBytes e bytes = .ok c) (member : choice ∈ c.choices) :
    c.HasChoice choice ∧ choice.index < Text.positionLimit := by
  obtain ⟨layout, image⟩ := ofBytes_eq_ok.mp read
  obtain ⟨⟨command, line⟩, inside, member⟩ := List.mem_flatMap.mp member
  obtain ⟨rfl, menu, params, values, typed, held, text, jump⟩ := mem_menuChoices member
  have found := List.mem_zipIdx_iff_getElem?.mp inside
  obtain ⟨_, record⟩ := image.spelled (List.mem_of_getElem? found)
  obtain ⟨schema, _, known, _, _, _, ⟨_, _, _, tail, _⟩, _⟩ := record.params typed
  rw [menu, Opcode.schema?_menu] at known
  cases known
  obtain ⟨few, body, many, _⟩ := tail
  constructor
  · -- The group has one value for each field of the tail.
    obtain ⟨_, group⟩ := many.spelled (List.mem_of_getElem? held)
    cases group with
    | cons first rest =>
      obtain ⟨_, _, rfl⟩ := first
      cases rest with
      | cons second rest =>
        obtain ⟨_, _, rfl⟩ := second
        cases rest
        refine ⟨command, params, found, menu, typed, ?_⟩
        rw [held, text, jump]
        rfl
  · obtain ⟨inside, _⟩ := List.getElem?_eq_some_iff.mp held
    exact (inside.trans few).trans (by decide)

/-- Other text blocks leave the choices alone. -/
theorem choices_mapBlocks (c : Chart) (h : Nat → TextBlock → TextBlock) :
    (c.mapBlocks h).choices = c.choices := by
  rw [choices, lines, mapBlocks, zipIdx_mapIdx, List.flatMap_map]
  congr 1
  funext x
  obtain ⟨⟨opcode, indent, flags, body⟩, line⟩ := x
  cases body <;> rfl

/-- New texts for segments leave the choices alone. -/
theorem choices_reworded (c : Chart) (f : Nat → Nat → Option String) :
    (c.reworded f).choices = c.choices :=
  c.choices_mapBlocks fun line => TextBlock.fill (f line)

/-- The choices of a chart with new texts for some of them. -/
theorem choices_rechosen (has : ∀ choice ∈ c.choices, c.HasChoice choice) :
    (c.rechosen g).choices = c.choices.map fun choice =>
      { choice with text := (g choice.line choice.index).getD choice.text } := by
  rw [choices, lines, rechosen, zipIdx_mapIdx, List.flatMap_map, choices, List.map_flatMap]
  apply List.flatMap_congr
  rintro ⟨command, line⟩ inside
  dsimp only
  rcases menu_cases command with ⟨menu, params, typed⟩ | ⟨none, same⟩
  · rw [menuChoices_eq (Command.opcode_rechosen menu typed _) (Command.body_rechosen menu typed _),
      menuChoices_eq menu typed, Parameters.rechosen, zipIdx_mapIdx, List.map_map, List.map_map]
    refine List.map_congr_left ?_
    rintro ⟨values, index⟩ among
    have listed : ⟨line, index, (values[0]?.bind Value.asStr?).getD "",
        (values[1]?.bind Value.asInt?).getD 0⟩ ∈ c.choices := by
      refine List.mem_flatMap.mpr ⟨(command, line), inside, ?_⟩
      dsimp only
      rw [menuChoices_eq menu typed]
      exact List.mem_map_of_mem among
    obtain ⟨command', params', found, _, typed', held⟩ := has _ listed
    cases (List.mem_zipIdx_iff_getElem?.mp inside).symm.trans found
    cases typed.symm.trans typed'
    obtain ⟨text, jump, rfl⟩ : ∃ text jump, values = [.str text, .int jump] :=
      ⟨_, _, Option.some.inj ((List.mem_zipIdx_iff_getElem?.mp among).symm.trans held)⟩
    simp only [Function.comp_apply]
    cases g line index <;> rfl
  · rw [same, none]
    rfl

end Chart

end NovelChart
