import NovelChart.Markup.Token
import NovelChart.Error
import NovelChart.Value.Basic

/-!
Commands. A command is an opcode with an indent, flags and a body. The body of a command whose
opcode has a schema is typed: its fixed parameters, the groups of its variable tail, and its text
block. Every other body is raw bytes, kept as they are.
-/

namespace NovelChart

/-- The parameters of a typed command. -/
structure Parameters where
  /-- The values of the fixed fields. -/
  fixed : List Value
  /-- The groups of the variable tail. -/
  tail : List (List Value) := []
  text : Option TextBlock := none
  deriving Repr

/-- The body of a command. -/
inductive Body
  | typed (params : Parameters)
  | raw (bytes : List UInt8)
  deriving Repr

/-- One command of a chart. -/
structure Command where
  opcode : Opcode
  indent : UInt32 := 0
  flags : UInt8 := 0
  body : Body
  deriving Repr

/-- Refuses values that a list of fields does not take, either in number or in kind. -/
def Field.accept (opcode : Opcode) (fields : List Field) (values : List Value) :
    Except Error Unit :=
  if values.length ≠ fields.length then
    .error (.schema opcode (.valueCount fields.length values.length))
  else
    match (fields.zip values).find? fun (f, v) => !v.fits f.kind with
    | some (f, v) => .error (.typeMismatch f.name f.kind v.kindName)
    | none => .ok ()

namespace Command

/-- A command with the given fixed parameters, no tail, and an empty text block if the opcode
carries one. -/
def ofParams (opcode : Opcode) (values : List Value) : Except Error Command :=
  match opcode.schema? with
  | none => .error (.schema opcode .noSchema)
  | some schema => do
    Field.accept opcode schema.fields values
    let text := if schema.carriesText then some (TextBlock.mk 104 []) else none
    return { opcode, body := .typed { fixed := values, text } }

/-- A command with an uninterpreted body. -/
def ofRaw (opcode : Opcode) (bytes : List UInt8) : Command :=
  { opcode, body := .raw bytes }

/-- Whether the body is uninterpreted. -/
def isRaw (c : Command) : Bool :=
  match c.body with
  | .raw _ => true
  | .typed _ => false

/-- The parameters of a typed command. -/
def params? (c : Command) : Option Parameters :=
  match c.body with
  | .typed p => some p
  | .raw _ => none

/-- The text block of a command that has one. -/
def text? (c : Command) : Option TextBlock :=
  c.params?.bind Parameters.text

/-- A command with other parameters in its typed body; a raw body stays. -/
def mapParams (f : Parameters → Parameters) (c : Command) : Command :=
  match c.body with
  | .typed p => { c with body := .typed (f p) }
  | .raw _ => c

/-- A command with its text block replaced, if it has one. -/
def mapText (f : TextBlock → TextBlock) (c : Command) : Command :=
  c.mapParams fun p => { p with text := p.text.map f }

/-- The number of groups in the variable tail. -/
def tailLength (c : Command) : Nat :=
  match c.params? with
  | some p => p.tail.length
  | none => 0

/-- The schema and the parameters of a command that has both. -/
def typed? (c : Command) : Option (Schema × Parameters) := do
  let schema ← c.opcode.schema?
  let params ← c.params?
  return (schema, params)

/-- The schema and the parameters of a command, which is refused as raw if it lacks either. -/
def typed (c : Command) : Except Error (Schema × Parameters) :=
  match c.typed? with
  | some parts => .ok parts
  | none => .error (.schema c.opcode .raw)

end Command

/-- Whether two bodies agree, reals being compared as numbers. -/
def Body.agrees : Body → Body → Bool
  | .typed a, .typed b =>
    Value.agreesAll a.fixed b.fixed && a.text == b.text && a.tail.length == b.tail.length &&
      (a.tail.zip b.tail).all fun (x, y) => Value.agreesAll x y
  | .raw a, .raw b => a == b
  | _, _ => false

/-- Whether two commands agree, reals being compared as numbers. -/
def Command.agrees (a b : Command) : Bool :=
  a.opcode == b.opcode && a.indent == b.indent && a.flags == b.flags && a.body.agrees b.body

end NovelChart
