import NovelChart.Command.Basic
import NovelChart.Shuffle.Basic

/-!
Charts and their editing. A chart is a header, a sequence of commands and a table of labels; a
label points at a command by its place, or behind the last one. Commands are inserted and removed
together with the labels that point at them, so that a label keeps to its command; a label on a
removed command points at the command that followed.
-/

namespace NovelChart

/-- The header of a chart. -/
structure Header where
  version : UInt32
  flags : UInt8 := 0
  /-- How the body is shuffled, if it is. -/
  scramble : Option ScrambleParams := none
  deriving DecidableEq, Repr

/-- A named place of a chart. -/
structure Label where
  name : String
  /-- The command that the label points at; the number of commands stands for the end. -/
  target : Nat
  deriving DecidableEq, Repr

/-- A chart and the encoding of its strings. -/
structure Chart where
  header : Header
  encoding : Encoding
  commands : List Command := []
  labels : List Label := []
  deriving Repr

namespace Header

/-- The flag of a shuffled body. -/
def scrambledFlag : UInt8 := 1

/-- Flags with the mark of a shuffled body set or cleared. -/
def markScrambled (flags : UInt8) (scrambled : Bool) : UInt8 :=
  if scrambled then flags ||| scrambledFlag else flags &&& ~~~scrambledFlag

/-- Whether the flags mark a shuffled body. -/
def isScrambled (flags : UInt8) : Bool :=
  flags &&& scrambledFlag != 0

/-- Refuses a version outside those that are supported. -/
def checkVersion (version : UInt32) : Except FormatError Unit :=
  if 103 ≤ version ∧ version ≤ 117 then .ok ()
  else .error ⟨none, 0, .unsupportedVersion version⟩

end Header

/-- The place of a label once a command was inserted in front of `index`. -/
def Label.afterInsert (index : Nat) (l : Label) : Label :=
  if index ≤ l.target then { l with target := l.target + 1 } else l

/-- The place of a label once the command at `index` was removed. -/
def Label.afterRemove (index : Nat) (l : Label) : Label :=
  if index < l.target then { l with target := l.target - 1 } else l

namespace Chart

/-- A chart without commands. -/
def new (version : UInt32) (encoding : Encoding) : Except FormatError Chart := do
  Header.checkVersion version
  return { header := { version }, encoding }

/-- The number of commands. -/
def length (c : Chart) : Nat :=
  c.commands.length

/-- The major release of the engine that writes this version. -/
def engineRelease (c : Chart) : Nat :=
  if 117 ≤ c.header.version then 3 else 2

/-- Shuffles the body from now on, or no longer. -/
def setScramble (c : Chart) (params : Option ScrambleParams) : Chart :=
  { c with header :=
    { c.header with
      flags := Header.markScrambled c.header.flags params.isSome
      scramble := params } }

/-- The command at a line. -/
def command (c : Chart) (line : Nat) : Except Error Command :=
  match c.commands[line]? with
  | some command => .ok command
  | none => .error (.noSuchLine line)

/-- The chart with another command at a line. -/
def setCommand (c : Chart) (line : Nat) (command : Command) : Chart :=
  { c with commands := c.commands.set line command }

/-- Appends a command. -/
def push (c : Chart) (command : Command) : Chart :=
  { c with commands := c.commands ++ [command] }

/-- Inserts a command in front of the one at `index`. -/
def insert (c : Chart) (index : Nat) (command : Command) : Except Error Chart :=
  if c.length < index then .error (.noSuchLine index)
  else .ok { c with
    commands := c.commands.insertIdx index command
    labels := c.labels.map (Label.afterInsert index) }

/-- Takes out the command at `index`. -/
def remove (c : Chart) (index : Nat) : Except Error (Command × Chart) := do
  let command ← c.command index
  return (command, { c with
    commands := c.commands.eraseIdx index
    labels := c.labels.map (Label.afterRemove index) })

/-- Adds a label. -/
def addLabel (c : Chart) (name : String) (target : Nat) : Except Error Chart :=
  if c.length < target then .error (.labelOutOfRange name target c.length)
  else .ok { c with labels := c.labels ++ [⟨name, target⟩] }

/-- Where the first label of a name points. -/
def labelTarget? (c : Chart) (name : String) : Option Nat :=
  (c.labels.find? fun l => l.name == name).map Label.target

/-- Whether two charts agree, reals being compared as numbers. -/
def agrees (a b : Chart) : Bool :=
  a.header == b.header && a.encoding == b.encoding && a.labels == b.labels &&
    a.commands.length == b.commands.length &&
    (a.commands.zip b.commands).all fun (x, y) => x.agrees y

end Chart

end NovelChart
