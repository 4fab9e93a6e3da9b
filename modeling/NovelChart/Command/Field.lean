import NovelChart.Command.Basic
import NovelChart.Text.Blank

/-!
Access to the parameters of a command. A parameter is addressed by its name, with the number of its
group in brackets when it stands in the tail, or by its place in the list of all parameters. Both
addresses lead to a slot, and reading and storing go through that slot.
-/

namespace NovelChart

/-- The place of a parameter inside a typed body. -/
inductive Slot
  /-- A fixed parameter. -/
  | fixed (i : Nat)
  /-- A parameter of a group of the tail. -/
  | tail (group i : Nat)
  deriving DecidableEq, Repr

/-- The name of a field in a numbered group of the tail. -/
def Field.nameInGroup (f : Field) (group : Nat) : String :=
  f.name ++ "[" ++ toString group ++ "]"

/-- A name taken apart at its first opening bracket: what stands before, and the number between the
brackets. -/
def Field.splitName? (name : String) : Option (String × Nat) :=
  let cs := name.toList
  let base := cs.takeWhile (· != '[')
  match cs.drop base.length with
  | [] => none
  | _ :: rest =>
    match rest.reverse with
    | ']' :: digits =>
      match Text.readPosition (Text.trim digits.reverse) with
      | .ok group => some (String.ofList (Text.trim base), group)
      | .error _ => none
    | _ => none

namespace Schema

/-- The slot of a name, and what the schema says of it. -/
def slotNamed? (s : Schema) (name : String) : Option (Slot × Field) :=
  match s.fieldIndex? name with
  | some i => s.fields[i]?.map fun f => (.fixed i, f)
  | none => do
    let (base, group) ← Field.splitName? name
    let tail ← s.tail
    let i ← Field.find? tail base
    let f ← tail[i]?
    return (.tail group i, f)

/-- The slot of a place in the list of all parameters, the tail having a number of groups. -/
def slotAt? (s : Schema) (groups index : Nat) : Option (Slot × Field) :=
  match s.fields[index]? with
  | some f => some (.fixed index, f)
  | none => do
    let tail ← s.tail
    let behind := index - s.fields.length
    let f ← tail[behind % tail.length]?
    if behind / tail.length < groups then
      some (.tail (behind / tail.length) (behind % tail.length), f)
    else none

end Schema

namespace Parameters

/-- The value in a slot. -/
def get? (p : Parameters) : Slot → Option Value
  | .fixed i => p.fixed[i]?
  | .tail group i => p.tail[group]?.bind fun values => values[i]?

/-- The parameters with another value in a slot. -/
def set (p : Parameters) (v : Value) : Slot → Parameters
  | .fixed i => { p with fixed := p.fixed.set i v }
  | .tail group i => { p with tail := p.tail.modify group fun values => values.set i v }

end Parameters

namespace Command

/-- Every parameter with its name, fixed ones first, then the tail group by group. -/
def fields (c : Command) : List (String × Value) :=
  match c.typed? with
  | none => []
  | some (schema, p) =>
    (schema.fields.zip p.fixed).map (fun (f, v) => (f.name, v)) ++
      match schema.tail with
      | none => []
      | some tail =>
        p.tail.zipIdx.flatMap fun (values, group) =>
          (tail.zip values).map fun (f, v) => (f.nameInGroup group, v)

/-- The parameter at a place in the order of `fields`. -/
def fieldAt? (c : Command) (index : Nat) : Option Value := do
  let (schema, p) ← c.typed?
  let (slot, _) ← schema.slotAt? p.tail.length index
  p.get? slot

/-- The parameter with a name. -/
def field (c : Command) (name : String) : Except Error Value := do
  let (schema, p) ← c.typed
  match (schema.slotNamed? name).bind fun (slot, _) => p.get? slot with
  | some v => return v
  | none => .error (.noSuchField c.opcode name)

/-- Puts a value into a slot that holds one, if the value fits. -/
def store (c : Command) (slot : Slot) (f : Field) (label : String) (v : Value) :
    Except Error Command := do
  if !v.fits f.kind then .error (.typeMismatch label f.kind v.kindName)
  else
    let (_, p) ← c.typed
    if (p.get? slot).isSome then return { c with body := .typed (p.set v slot) }
    else .error (.noSuchField c.opcode label)

/-- Replaces the parameter with a name. -/
def setField (c : Command) (name : String) (v : Value) : Except Error Command :=
  match c.opcode.schema? with
  | none => .error (.schema c.opcode .raw)
  | some schema =>
    match schema.slotNamed? name with
    | none => .error (.noSuchField c.opcode name)
    | some (slot, f) => c.store slot f name v

/-- Replaces the parameter at a place in the order of `fields`. -/
def setFieldAt (c : Command) (index : Nat) (v : Value) : Except Error Command := do
  let (schema, p) ← c.typed
  let label := "#" ++ toString index
  match schema.slotAt? p.tail.length index with
  | none => .error (.noSuchField c.opcode label)
  | some (slot, f) => c.store slot f label v

/-- Appends a group to the variable tail. -/
def pushGroup (c : Command) (values : List Value) : Except Error Command := do
  let (schema, p) ← c.typed
  match schema.tail with
  | none => .error (.schema c.opcode .noTail)
  | some tail =>
    Field.accept c.opcode tail values
    return { c with body := .typed { p with tail := p.tail ++ [values] } }

/-- Takes a group out of the variable tail. -/
def removeGroup (c : Command) (index : Nat) : Except Error (List Value × Command) := do
  let (_, p) ← c.typed
  match p.tail[index]? with
  | none => .error (.noSuchField c.opcode ("group " ++ toString index))
  | some values =>
    return (values, { c with body := .typed { p with tail := p.tail.eraseIdx index } })

end Command

end NovelChart
