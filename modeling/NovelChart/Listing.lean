import NovelChart.Chart.Text
import NovelChart.Document.Basic
import NovelChart.Notice
import NovelChart.Script.Print

/-!
Summaries and listings of charts, as documents. A summary counts; a listing shows every command with
its parameters, the script of its text block, or the length of its raw body.
-/

namespace NovelChart

/-- The counts of a chart. -/
structure Summary where
  version : UInt32
  release : Nat
  scramble : Option ScrambleParams
  commands : Nat
  rawCommands : Nat
  textBlocks : Nat
  menus : Nat
  labels : Nat
  deriving DecidableEq, Repr

namespace Summary

/-- The summary of a chart. A menu counts if it has a choice. -/
def ofChart (c : Chart) : Summary where
  version := c.header.version
  release := c.engineRelease
  scramble := c.header.scramble
  commands := c.length
  rawCommands := c.rawCount
  textBlocks := c.commands.countP fun command => command.text?.isSome
  menus := c.choices.countP fun choice => choice.index == 0
  labels := c.labels.length

/-- The document of a summary. -/
def toDocument (s : Summary) : Document :=
  .record ([("version", .nat s.version.toNat), ("lm_version", .nat s.release)] ++
    Document.optional "scramble" (s.scramble.map fun params =>
      .record [("chunk_size", .int params.chunkSize.toInt), ("seed", .nat params.seed.toNat)]) ++
    [("commands", .nat s.commands), ("opaque_commands", .nat s.rawCommands),
      ("text_blocks", .nat s.textBlocks), ("menus", .nat s.menus), ("labels", .nat s.labels)])

end Summary

mutual

/-- The document of a value, marked with its kind. -/
def Value.toDocument : Value → Document
  | .int n => .record [("type", .text "Int"), ("value", .int n.toInt)]
  | .real bits => .record [("type", .text "Real"), ("value", .real bits)]
  | .flag b => .record [("type", .text "Flag"), ("value", .flag b)]
  | .str s => .record [("type", .text "Str"), ("value", .text s)]
  | .array items => .record [("type", .text "Array"), ("value", .list (Value.toDocuments items))]

/-- The documents of values. -/
def Value.toDocuments : List Value → List Document
  | [] => []
  | v :: vs => v.toDocument :: Value.toDocuments vs

end

/-- The document of a command at a line. Indent and flags are left out when they are zero. -/
def Command.toDocument (textOnly : Bool) (c : Command) (line : Nat) : Document :=
  let fields := c.fields.map fun (name, v) =>
    Document.record [("name", .text name), ("value", v.toDocument)]
  .record ([("line", .nat line), ("opcode", .text c.opcode.name)] ++
    Document.optional "indent" (if c.indent = 0 then none else some (.nat c.indent.toNat)) ++
    Document.optional "flags" (if c.flags = 0 then none else some (.nat c.flags.toNat)) ++
    Document.optional "fields" (if fields.isEmpty then none else some (.list fields)) ++
    Document.optional "script"
      (c.text?.map fun block => .text (Script.print textOnly block.tokens)) ++
    Document.optional "opaque_len"
      (match c.body with
      | .raw bytes => some (.nat bytes.length)
      | .typed _ => none))

/-- The document of a label. -/
def Label.toDocument (l : Label) : Document :=
  .record [("name", .text l.name), ("target", .nat l.target)]

/-- The listing of a chart. -/
def Chart.listing (textOnly : Bool) (c : Chart) : Document :=
  .record [("info", (Summary.ofChart c).toDocument),
    ("labels", .list (c.labels.map Label.toDocument)),
    ("commands", .list (c.lines.map fun (command, line) => command.toDocument textOnly line))]

end NovelChart
