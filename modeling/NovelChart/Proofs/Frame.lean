import Mathlib.Logic.Relation
import NovelChart.Proofs.ReadBack
import NovelChart.Sheet

/-!
# What editing texts leaves alone

Every edit of a text puts other parameters into typed commands and touches nothing else. What stays
is the frame of a chart: its header, its encoding and its labels, and its commands up to their
parameters. A chart has the frame of a sound one only if it is sound itself, so that everything that
editing makes of a chart that was read can be written and read back.

## Main definitions

* `Command.frame`, `Chart.frame`: a command without its parameters, and a chart of such commands
* `Chart.mapBlocks`: a chart with its text blocks changed, one by one
* `Chart.Revised`: one edit that was made in a chart

## Main results

* `Chart.replaceText_eq_ok`, `Chart.replaceText_cases`: what replacing a text can do
* `Chart.frame_replaceText`, `Chart.frame_replaceBlockScript`, `Chart.frame_replaceChoice`: single
  edits keep the frame
* `Chart.frame_of_revised`: so do edits one after another
* `Sheet.revised_apply`, `Sheet.frame_apply`: applying a sheet is editing, whether or not it
  succeeds, and keeps the frame
* `Command.mapText_congr`, `Command.mapText_mapText`: how a text block is changed in a command
-/

namespace NovelChart

/-! ### Commands -/

namespace Command

variable {c c' : Command}

/-- A command without its parameters. A raw body is not made of parameters. -/
def frame : Command → Command :=
  mapParams fun _ => ⟨[], [], none⟩

theorem frame_mapParams (f : Parameters → Parameters) (c : Command) :
    (c.mapParams f).frame = c.frame := by
  obtain ⟨opcode, indent, flags, body⟩ := c
  cases body with
  | typed params => rfl
  | raw bytes => rfl

theorem sound_frame : c.frame.Sound ↔ c.Sound := by
  obtain ⟨opcode, indent, flags, body⟩ := c
  cases body with
  | typed params =>
    constructor
    · intro _ raw
      cases raw
    · intro _ raw
      cases raw
  | raw bytes => exact Iff.rfl

theorem typed?_eq_some {schema : Schema} {params : Parameters} :
    c.typed? = some (schema, params) ↔ c.opcode.schema? = some schema ∧ c.body = .typed params := by
  obtain ⟨opcode, indent, flags, body⟩ := c
  cases body with
  | typed params => simp [typed?, params?, Option.bind_eq_some_iff]
  | raw bytes => simp [typed?, params?]

theorem typed_eq_ok {schema : Schema} {params : Parameters} :
    c.typed = .ok (schema, params) ↔ c.opcode.schema? = some schema ∧ c.body = .typed params := by
  rw [← typed?_eq_some, typed]
  cases c.typed? with
  | some parts => simp
  | none => simp

/-- A value goes into a slot that holds one already. -/
theorem store_eq_ok {slot : Slot} {f : Field} {label : String} {v : Value} :
    c.store slot f label v = .ok c' ↔ v.fits f.kind = true ∧
      ∃ schema params, c.opcode.schema? = some schema ∧ c.body = .typed params ∧
        (params.get? slot).isSome = true ∧ { c with body := .typed (params.set v slot) } = c' := by
  simp only [store, refuse_eq_ok, Bool.not_eq_true', Bool.not_eq_false, bind_eq_ok, Prod.exists,
    typed_eq_ok, and_assoc]
  refine and_congr_right fun _ => exists_congr fun schema => exists_congr fun params =>
    and_congr_right fun _ => and_congr_right fun _ => ?_
  by_cases held : (params.get? slot).isSome = true
  · simp only [held, if_true, pure_eq_ok, true_and]
  · simp only [held, if_false, false_and, reduceCtorEq, Bool.false_eq_true]

theorem frame_setField {name : String} {v : Value} (stored : c.setField name v = .ok c') :
    c'.frame = c.frame := by
  rw [setField] at stored
  split at stored
  · cases stored
  · split at stored
    · cases stored
    · obtain ⟨_, _, params, _, typed, _, rfl⟩ := store_eq_ok.mp stored
      simp only [frame, mapParams, typed]

/-! ### Text blocks -/

theorem text?_mapText (g : TextBlock → TextBlock) (command : Command) :
    (command.mapText g).text? = command.text?.map g := by
  obtain ⟨opcode, indent, flags, body⟩ := command
  cases body with
  | typed params => rfl
  | raw bytes => rfl

theorem mapText_mapText (g h : TextBlock → TextBlock) (command : Command) :
    (command.mapText g).mapText h = command.mapText fun block => h (g block) := by
  obtain ⟨opcode, indent, flags, body⟩ := command
  cases body with
  | typed params => simp only [mapText, mapParams, Option.map_map, Function.comp_def]
  | raw bytes => rfl

theorem mapText_congr {g h : TextBlock → TextBlock} {command : Command}
    (same : ∀ block, command.text? = some block → g block = h block) :
    command.mapText g = command.mapText h := by
  obtain ⟨opcode, indent, flags, body⟩ := command
  cases body with
  | typed params =>
    have same : params.text.map g = params.text.map h := by
      cases carries : params.text with
      | none => rfl
      | some block => rw [Option.map_some, Option.map_some, same block carries]
    simp only [mapText, mapParams, same]
  | raw bytes => rfl

theorem mapText_id (command : Command) : command.mapText id = command := by
  obtain ⟨opcode, indent, flags, body⟩ := command
  cases body with
  | typed params => simp only [mapText, mapParams, Option.map_id, id]
  | raw bytes => rfl

end Command

/-! ### Charts -/

namespace Chart

variable {c c' : Chart}

/-- Charts that differ in their commands only are the same if they have the same lines. -/
theorem eq_of_lines {commands commands' : List Command}
    (same : ∀ line : Nat, commands[line]? = commands'[line]?) :
    { c with commands := commands } = { c with commands := commands' } := by
  rw [List.ext_getElem? same]

/-- A chart without the parameters of its commands. -/
def frame (c : Chart) : Chart :=
  { c with commands := c.commands.map Command.frame }

theorem encoding_of_frame (same : c'.frame = c.frame) : c'.encoding = c.encoding :=
  congrArg (fun chart => chart.encoding) same

theorem sound_frame : c.frame.Sound ↔ c.Sound := by
  constructor
  · rintro ⟨supported, commands⟩
    refine ⟨supported, fun command member => ?_⟩
    exact Command.sound_frame.mp (commands _ (List.mem_map_of_mem member))
  · rintro ⟨supported, commands⟩
    refine ⟨supported, fun framed member => ?_⟩
    obtain ⟨command, inside, rfl⟩ := List.mem_map.mp member
    exact Command.sound_frame.mpr (commands command inside)

/-- Soundness is a matter of the frame. -/
theorem Sound.of_frame (sound : c.Sound) (same : c'.frame = c.frame) : c'.Sound := by
  rw [← sound_frame, same]
  exact sound_frame.mpr sound

/-- The chart with every text block changed, which may depend on its line. -/
def mapBlocks (c : Chart) (g : Nat → TextBlock → TextBlock) : Chart :=
  { c with commands := c.commands.mapIdx fun line command => command.mapText (g line) }

theorem getElem?_mapBlocks (c : Chart) (g : Nat → TextBlock → TextBlock) (line : Nat) :
    (c.mapBlocks g).commands[line]? =
      c.commands[line]?.map fun command => command.mapText (g line) := by
  rw [mapBlocks, List.getElem?_mapIdx]

theorem block_mapBlocks {line : Nat} {block : TextBlock} (there : c.block line = .ok block)
    (g : Nat → TextBlock → TextBlock) : (c.mapBlocks g).block line = .ok (g line block) := by
  obtain ⟨command, found, carries⟩ := block_eq_ok.mp there
  refine block_eq_ok.mpr ⟨command.mapText (g line), ?_, ?_⟩
  · rw [getElem?_mapBlocks, found, Option.map_some]
  · rw [Command.text?_mapText, carries, Option.map_some]

theorem mapBlocks_id (c : Chart) : (c.mapBlocks fun _ => id) = c := by
  refine eq_of_lines fun line => ?_
  rw [List.getElem?_mapIdx, funext Command.mapText_id]
  exact Option.map_id'

theorem mapBlocks_mapBlocks (c : Chart) (g h : Nat → TextBlock → TextBlock) :
    (c.mapBlocks g).mapBlocks h = c.mapBlocks fun line block => h line (g line block) := by
  refine eq_of_lines fun line => ?_
  simp only [mapBlocks, List.getElem?_mapIdx, Option.map_map, Function.comp_def,
    Command.mapText_mapText]

theorem setBlock_eq_mapBlocks (c : Chart) (line : Nat) (block : TextBlock) :
    c.setBlock line block = c.mapBlocks fun i => if line = i then fun _ => block else id := by
  refine eq_of_lines fun i => ?_
  rw [List.getElem?_modify, List.getElem?_mapIdx, Option.map_eq_map]
  congr 1
  funext command
  dsimp only
  by_cases here : line = i
  · rw [if_pos here, if_pos here]
  · rw [if_neg here, if_neg here, Command.mapText_id]

theorem frame_mapBlocks (c : Chart) (g : Nat → TextBlock → TextBlock) :
    (c.mapBlocks g).frame = c.frame := by
  refine eq_of_lines fun line => ?_
  simp only [mapBlocks, List.getElem?_map, List.getElem?_mapIdx, Option.map_map, Function.comp_def,
    Command.mapText, Command.frame_mapParams]

theorem frame_setBlock (c : Chart) (line : Nat) (block : TextBlock) :
    (c.setBlock line block).frame = c.frame := by
  rw [setBlock_eq_mapBlocks, frame_mapBlocks]

theorem frame_setCommand {line : Nat} {command command' : Command}
    (found : c.commands[line]? = some command) (same : command'.frame = command.frame) :
    (c.setCommand line command').frame = c.frame := by
  have commands : (c.setCommand line command').commands.map Command.frame =
      c.commands.map Command.frame := by
    obtain ⟨inside, rfl⟩ := List.getElem?_eq_some_iff.mp found
    have inside' : line < (c.commands.map Command.frame).length := by
      rwa [List.length_map]
    have kept : (c.commands.map Command.frame)[line] = command'.frame := by
      rw [List.getElem_map, same]
    rw [setCommand, List.map_set, ← kept, List.set_getElem_self]
  rw [frame, commands]
  rfl

/-! ### Edits -/

/-- Replacing a text finds the segment, and changes its block unless the text is there already. -/
theorem replaceText_eq_ok {id : TextId} {text : String} : c.replaceText id text = .ok c' ↔
    c.encoding.check text = .ok () ∧ ∃ block seg, c.block id.line = .ok block ∧
      (Segment.ofTokens block.tokens)[id.index]? = some seg ∧
      (if seg.text? block.tokens = some text then c else c.setBlock id.line
        { block with tokens := seg.replace block.tokens (plainTokens text) }) = c' := by
  simp only [replaceText, checkText, bind_eq_ok, mapError_eq_ok, exists_and_left]
  refine Unique.exists_iff.trans (and_congr_right fun _ => exists_congr fun block =>
    and_congr_right fun _ => ?_)
  cases (Segment.ofTokens block.tokens)[id.index]? with
  | none => simp
  | some seg =>
    by_cases same : seg.text? block.tokens = some text
    · simp [same, pure_eq_ok]
    · simp [same, pure_eq_ok]

theorem replaceText_cases {id : TextId} {text : String} (edited : c.replaceText id text = .ok c') :
    c.encoding.check text = .ok () ∧ ∃ block seg, c.block id.line = .ok block ∧
      (Segment.ofTokens block.tokens)[id.index]? = some seg ∧
      (c' = c ∨ c' = c.setBlock id.line
        { block with tokens := seg.replace block.tokens (plainTokens text) }) := by
  obtain ⟨checked, block, seg, there, found, rfl⟩ := replaceText_eq_ok.mp edited
  exact ⟨checked, block, seg, there, found, ite_eq_or_eq _ _ _⟩

theorem frame_replaceText {id : TextId} {text : String} (edited : c.replaceText id text = .ok c') :
    c'.frame = c.frame := by
  obtain ⟨_, block, seg, _, _, rfl | rfl⟩ := replaceText_cases edited
  · rfl
  · exact frame_setBlock c id.line _

theorem frame_replaceBlockPlain {line : Nat} {text : String}
    (edited : c.replaceBlockPlain line text = .ok c') : c'.frame = c.frame := by
  simp only [replaceBlockPlain, bind_eq_ok, pure_eq_ok] at edited
  obtain ⟨_, _, block, _, rfl⟩ := edited
  exact frame_setBlock c line _

theorem frame_replaceBlockScript {line : Nat} {keep : Bool} {script : String}
    (edited : c.replaceBlockScript line keep script = .ok c') : c'.frame = c.frame := by
  simp only [replaceBlockScript, bind_eq_ok, pure_eq_ok] at edited
  obtain ⟨block, _, tokens, _, _, _, rfl⟩ := edited
  exact frame_setBlock c line _

theorem frame_replaceChoice {line index : Nat} {text : String}
    (edited : c.replaceChoice line index text = .ok c') : c'.frame = c.frame := by
  simp only [replaceChoice, bind_eq_ok, refuse_eq_ok, pure_eq_ok, command_eq_ok] at edited
  obtain ⟨_, _, command, found, _, command', stored, rfl⟩ := edited
  exact frame_setCommand found (Command.frame_setField stored)

/-! ### Edits one after another -/

/-- One edit that was made: a new text for a segment, a whole block or a choice, or a script. -/
inductive Revised (c c' : Chart) : Prop
  | segment {id : TextId} {text : String} (edited : c.replaceText id text = .ok c')
  | plain {line : Nat} {text : String} (edited : c.replaceBlockPlain line text = .ok c')
  | script {line : Nat} {keep : Bool} {script : String}
      (edited : c.replaceBlockScript line keep script = .ok c')
  | choice {line index : Nat} {text : String} (edited : c.replaceChoice line index text = .ok c')

theorem Revised.frame (revised : Revised c c') : c'.frame = c.frame := by
  cases revised with
  | segment edited => exact frame_replaceText edited
  | plain edited => exact frame_replaceBlockPlain edited
  | script edited => exact frame_replaceBlockScript edited
  | choice edited => exact frame_replaceChoice edited

/-- Edits one after another keep the frame. -/
theorem frame_of_revised (run : Relation.ReflTransGen Revised c c') : c'.frame = c.frame := by
  induction run with
  | refl => rfl
  | tail _ revised ih => exact revised.frame.trans ih

/-- Replacing texts is editing, even if one of them is refused: those before it were edits. -/
theorem revised_replaceInOrder (edits : List (TextId × String)) (c : Chart) :
    Relation.ReflTransGen Revised c (replaceInOrder edits c).2 := by
  induction edits generalizing c with
  | nil => exact .refl
  | cons edit edits ih =>
    obtain ⟨id, text⟩ := edit
    rw [replaceInOrder]
    split
    · next edited => exact .head (.segment edited) (ih _)
    · exact .refl

theorem revised_replaceTexts (c : Chart) (edits : List (TextId × String)) :
    Relation.ReflTransGen Revised c (c.replaceTexts edits).2 :=
  revised_replaceInOrder _ c

end Chart

/-! ### Sheets -/

namespace Sheet

theorem revised_applyChoices (current : List Choice) (entries : List ChoiceEntry) (count : Nat)
    (c : Chart) :
    Relation.ReflTransGen Chart.Revised c (applyChoices current entries count c).chart := by
  induction entries generalizing count c with
  | nil => exact .refl
  | cons entry entries ih =>
    rw [applyChoices]
    split
    · exact ih count c
    · split
      · split
        · next edited => exact .head (.choice edited) (ih _ _)
        · exact .refl
      · exact ih count c

/-- Applying a sheet is editing: first the texts, then the choices. -/
theorem revised_apply (s : Sheet) (c : Chart) :
    Relation.ReflTransGen Chart.Revised c (s.apply c).chart := by
  rw [apply]
  obtain ⟨notices, asked⟩ := edits s.chart (c.texts s.chart) s.texts
  cases asked with
  | error f => exact .refl
  | ok edits =>
    have texts := c.revised_replaceTexts edits
    dsimp only
    cases replaced : c.replaceTexts edits with
    | mk result c' =>
      rw [replaced] at texts
      cases result with
      | error e => exact texts
      | ok count => exact texts.trans (revised_applyChoices c'.choices s.choices count c')

/-- Applying a sheet keeps the frame of the chart. -/
theorem frame_apply (s : Sheet) (c : Chart) : (s.apply c).chart.frame = c.frame :=
  Chart.frame_of_revised (s.revised_apply c)

end Sheet

end NovelChart
