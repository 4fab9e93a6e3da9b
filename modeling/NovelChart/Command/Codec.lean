import NovelChart.Command.Field
import NovelChart.Markup.Block
import NovelChart.Value.Codec

/-!
The binary form of a command, a record: opcode, indent, flags, the length of the body, and the
body. A typed body lists the fixed parameters, then the counted groups of the tail, then the text
block, and has to end there; a body without a schema is taken as it stands.
-/

namespace NovelChart

/-- Where a record lies in the plain image of its chart. -/
structure Span where
  start : Nat
  bodyStart : Nat
  stop : Nat
  deriving DecidableEq, Repr

namespace Field

/-- Reads one value for each field. -/
def decodeAll (r : Reading) : List Field → Cursor → Except FormatError (Step (List Value))
  | [], c => .ok ([], c)
  | f :: fs, c => do
    let (v, c) ← Value.decode r f.kind c
    let (vs, c) ← decodeAll r fs c
    return (v :: vs, c)

/-- The bytes of values under fields that are shown by labels; both lists are walked together. -/
def encodeAll (e : Encoding) (label : Field → String) :
    List Field → List Value → Except Error (List UInt8)
  | f :: fs, v :: vs => do
    let bytes ← v.encode e f.kind (label f)
    let rest ← encodeAll e label fs vs
    return bytes ++ rest
  | _, _ => .ok []

end Field

namespace Parameters

/-- Reads the groups of a variable tail behind their count. -/
def decodeTail (r : Reading) (tail : List Field) (start : Cursor) :
    Except FormatError (Step (List (List Value))) := do
  let (count, c) ← start.i32
  if count < 0 || !c.admits r count.toInt.toNat (Field.minSizes tail) then
    .error (start.error (.badTailCount count.toInt c.remaining))
  else Cursor.many (Field.decodeAll r tail) count.toInt.toNat c

/-- Reads a typed body, which has to take all bytes. -/
def decode (r : Reading) (s : Schema) (c : Cursor) : Except FormatError Parameters := do
  let (fixed, c) ← Field.decodeAll r s.fields c
  let (tail, c) ← match s.tail with
    | some fields => decodeTail r fields c
    | none => pure ([], c)
  let (text, c) ← if s.carriesText then do
      let (block, c) ← TextBlock.decode r c
      pure (some block, c)
    else pure (none, c)
  c.finish
  return { fixed, tail, text }

/-- The bytes of tail groups, numbered from `group` on. -/
def encodeGroups (e : Encoding) (opcode : Opcode) (tail : List Field) :
    Nat → List (List Value) → Except Error (List UInt8)
  | _, [] => .ok []
  | group, values :: rest =>
    if values.length ≠ tail.length then
      .error (.schema opcode (.groupSize group values.length tail.length))
    else do
      let bytes ← Field.encodeAll e (·.nameInGroup group) tail values
      let more ← encodeGroups e opcode tail (group + 1) rest
      return bytes ++ more

/-- The bytes of a variable tail. -/
def encodeTail (e : Encoding) (opcode : Opcode) (s : Schema) (tail : List (List Value)) :
    Except Error (List UInt8) :=
  match s.tail with
  | some fields => do
    let groups ← encodeGroups e opcode fields 0 tail
    return Bytes.count tail.length ++ groups
  | none => if tail.isEmpty then .ok [] else .error (.schema opcode .noTail)

/-- The bytes of the parameters ahead of the text block. -/
def encodeValues (e : Encoding) (opcode : Opcode) (s : Schema) (p : Parameters) :
    Except Error (List UInt8) :=
  if p.fixed.length ≠ s.fields.length then
    .error (.schema opcode (.parameterCount s.fields.length p.fixed.length))
  else do
    let fixed ← Field.encodeAll e Field.name s.fields p.fixed
    let tail ← encodeTail e opcode s p.tail
    return fixed ++ tail

/-- The bytes of the text block, which has to be there exactly when the schema asks for it. -/
def encodeText (e : Encoding) (opcode : Opcode) (s : Schema) (p : Parameters) :
    Except Error (List UInt8) :=
  match p.text, s.carriesText with
  | some block, true => block.encode e
  | none, true => .error (.schema opcode .missingText)
  | some _, false => .error (.schema opcode .extraText)
  | none, false => .ok []

/-- The bytes of a typed body. -/
def encode (e : Encoding) (opcode : Opcode) (s : Schema) (p : Parameters) :
    Except Error (List UInt8) := do
  let values ← p.encodeValues e opcode s
  let text ← p.encodeText e opcode s
  return values ++ text

end Parameters

namespace Command

/-- The fewest bytes of a record: one with an empty body. -/
def minSize : Nat := 10

/-- Reads the body of a record. -/
def decodeBody (r : Reading) (opcode : Opcode) (c : Cursor) : Except FormatError Body :=
  match opcode.schema? with
  | some schema => do
    let params ← Parameters.decode r schema c
    return .typed params
  | none => .ok (.raw c.rest)

/-- Reads one record. Faults behind the opcode byte name the opcode. -/
def decode (r : Reading) (start : Cursor) : Except FormatError (Step (Command × Span)) := do
  let (code, c) ← start.u8
  let opcode : Opcode := ⟨code⟩
  let (indent, c) ← { c with opcode := some opcode : Cursor }.u32
  let (flags, c) ← c.u8
  let (length, c) ← c.u32
  let (inner, behind) ← c.split length.toNat
  let body ← decodeBody r opcode inner
  return ((⟨opcode, indent, flags, body⟩, ⟨start.offset, c.offset, behind.offset⟩),
    { behind with opcode := none })

/-- The bytes of the body of a command. -/
def encodeBody (e : Encoding) (c : Command) : Except Error (List UInt8) :=
  match c.body, c.opcode.schema? with
  | .raw bytes, _ => .ok bytes
  | .typed params, some schema => params.encode e c.opcode schema
  | .typed _, none => .error (.schema c.opcode .typedWithoutSchema)

/-- The record of a command. -/
def encode (e : Encoding) (c : Command) : Except Error (List UInt8) := do
  let body ← c.encodeBody e
  return c.opcode.code :: Bytes.u32 c.indent ++ c.flags :: Bytes.counted body

/-- Where the text block begins inside the body, for a command that has one. -/
def textOffset? (e : Encoding) (c : Command) : Except Error (Option Nat) :=
  match c.typed? with
  | none => .ok none
  | some (schema, p) =>
    if p.text.isNone then .ok none
    else do
      let bytes ← p.encodeValues e c.opcode schema
      return some bytes.length

end Command

end NovelChart
