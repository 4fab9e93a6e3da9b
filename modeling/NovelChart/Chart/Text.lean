import NovelChart.Chart.Basic
import NovelChart.Command.Field
import NovelChart.Markup.Block
import NovelChart.Script.Compile
import NovelChart.Segment.Basic
import NovelChart.Segment.Id

/-!
The texts of a chart: its segments, its scenarios and its menu choices, and how they are replaced.
A new text is refused if the chart's encoding cannot write it, and a refused edit leaves the chart
as it was. A batch of edits runs from the last segment to the first, so that removing a segment
does not renumber those that are still to be edited; edits made before one that fails stay.
-/

namespace NovelChart

/-- A text block and where it stands. -/
structure Scenario where
  line : Nat
  /-- The name of the label command two lines above, if there is one. -/
  name : Option String
  block : TextBlock
  deriving DecidableEq, Repr

/-- A choice of a menu. -/
structure Choice where
  line : Nat
  index : Nat
  text : String
  jump : Int32
  deriving DecidableEq, Repr

namespace Chart

/-- The commands with their lines. -/
def lines (c : Chart) : List (Command × Nat) :=
  c.commands.zipIdx

/-- Refuses a text that the chart cannot hold. -/
def checkText (c : Chart) (text : String) : Except Error Unit :=
  (c.encoding.check text).mapError .text

/-- The text block at a line. -/
def block (c : Chart) (line : Nat) : Except Error TextBlock := do
  let command ← c.command line
  match command.text? with
  | some block => return block
  | none => .error (.notTextCommand line command.opcode)

/-- The chart with another text block at a line that has one. -/
def setBlock (c : Chart) (line : Nat) (block : TextBlock) : Chart :=
  { c with commands := c.commands.modify line fun command => command.mapText fun _ => block }

/-! ### Segments -/

/-- The texts of a block's segments, numbered. -/
def blockTexts (block : TextBlock) : List (Nat × String) :=
  (Segment.ofTokens block.tokens).zipIdx.filterMap fun (segment, index) =>
    (segment.text? block.tokens).map fun text => (index, text)

/-- Every segment of the chart with its text, under a name for the chart. -/
def texts (c : Chart) (name : String) : List (TextId × String) :=
  c.lines.flatMap fun (command, line) =>
    match command.text? with
    | some block => (blockTexts block).map fun (index, text) => (⟨name, line, index⟩, text)
    | none => []

/-- Replaces the text of a segment. A text that the segment has already leaves its tokens alone; an
empty text removes the segment. -/
def replaceText (c : Chart) (id : TextId) (text : String) : Except Error Chart := do
  c.checkText text
  let block ← c.block id.line
  match (Segment.ofTokens block.tokens)[id.index]? with
  | none => .error (.noSuchSegment id.line id.index)
  | some segment =>
    if segment.text? block.tokens = some text then return c
    else
      return c.setBlock id.line
        { block with tokens := segment.replace block.tokens (plainTokens text) }

/-- Replaces texts one after another and stops at the first that is refused. -/
def replaceInOrder : List (TextId × String) → Chart → Except Error Unit × Chart
  | [], c => (.ok (), c)
  | (id, text) :: rest, c =>
    match c.replaceText id text with
    | .ok c => replaceInOrder rest c
    | .error e => (.error e, c)

/-- Whether an edit may run before another: it is on a later line, or on the same line and not at an
earlier segment. -/
def notBefore (a b : TextId × String) : Bool :=
  b.1.line < a.1.line || (a.1.line == b.1.line && b.1.index ≤ a.1.index)

/-- Replaces texts from the last segment to the first; reports how many there were. -/
def replaceTexts (c : Chart) (edits : List (TextId × String)) : Except Error Nat × Chart :=
  let (result, c) := replaceInOrder (edits.mergeSort notBefore) c
  (result.map fun _ => edits.length, c)

/-! ### Whole blocks -/

/-- Replaces a text block by plain text. -/
def replaceBlockPlain (c : Chart) (line : Nat) (text : String) : Except Error Chart := do
  c.checkText text
  let block ← c.block line
  return c.setBlock line { block with tokens := plainTokens text }

/-- Replaces a text block by a compiled script, if the block can be written. -/
def replaceBlockScript (c : Chart) (line : Nat) (keepComments : Bool) (script : String) :
    Except Error Chart := do
  let block ← c.block line
  let tokens ← (Script.compile keepComments script).mapError .script
  let block := { block with tokens }
  let _ ← block.encode c.encoding
  return c.setBlock line block

/-! ### Scenarios -/

/-- The name that a label command gives. -/
def labelName? (command : Command) : Option String :=
  if command.opcode = .label then (command.field "Name").toOption.bind Value.asStr? else none

/-- The name of the scenario at a line. -/
def scenarioName? (c : Chart) (line : Nat) : Option String :=
  if line < 2 then none else c.commands[line - 2]?.bind labelName?

/-- Every text block of the chart. -/
def scenarios (c : Chart) : List Scenario :=
  c.lines.filterMap fun (command, line) =>
    command.text?.map fun block => ⟨line, c.scenarioName? line, block⟩

/-! ### Menus -/

/-- The choices of a menu command at a line. -/
def menuChoices (command : Command) (line : Nat) : List Choice :=
  match command.params? with
  | some params =>
    if command.opcode = .menu then
      params.tail.zipIdx.map fun (values, index) =>
        { line, index
          text := (values[0]?.bind Value.asStr?).getD ""
          jump := (values[1]?.bind Value.asInt?).getD 0 }
    else []
  | none => []

/-- Every menu choice of the chart. -/
def choices (c : Chart) : List Choice :=
  c.lines.flatMap fun (command, line) => menuChoices command line

/-- Replaces the text of a menu choice. -/
def replaceChoice (c : Chart) (line index : Nat) (text : String) : Except Error Chart := do
  c.checkText text
  let command ← c.command line
  if command.opcode ≠ .menu then .error (.notMenuCommand line command.opcode)
  else
    let command ← command.setField ("Text[" ++ toString index ++ "]") (.str text)
    return c.setCommand line command

end Chart

end NovelChart
