import NovelChart.Bytes.Cursor
import NovelChart.Error
import NovelChart.Value.Basic

/-!
The binary form of values. A kind alone says how many bytes a value takes and how they are read, so
decoding follows the kind; encoding follows the value and refuses one that does not fit the kind.
-/

namespace NovelChart.Value

/-- Reads one value of a kind. -/
def decode (r : Reading) : Kind → Cursor → Except FormatError (Step Value)
  | .int, c => do
    let (n, c) ← c.i32
    return (.int n, c)
  | .real, c => do
    let (bits, c) ← c.u64
    return (.real bits, c)
  | .flag, c => do
    let (b, behind) ← c.u8
    if b = 0 then return (.flag false, behind)
    else if b = 1 then return (.flag true, behind)
    else .error (c.error (.badFlag b))
  | .str, c => do
    let (s, c) ← c.text r
    return (.str s, c)
  | .array elem, c => do
    let (count, body) ← c.u32
    if !body.admits r count.toNat elem.minSize then .error (c.error .truncated)
    let (items, behind) ← Cursor.many (decode r elem) count.toNat body
    return (.array items, behind)

mutual

/-- The bytes of a value in a slot of a kind. The name of the slot only serves the error. -/
def encode (e : Encoding) : Value → Kind → String → Except Error (List UInt8)
  | int n, .int, _ => .ok (Bytes.i32 n)
  | real bits, .real, _ => .ok (Bytes.u64 bits)
  | flag b, .flag, _ => .ok [if b then 1 else 0]
  | str s, .str, _ => do return Bytes.counted (← e.write s)
  | array items, .array elem, field => do
    return Bytes.count items.length ++ (← encodeItems e items elem field 0)
  | v, kind, field => .error (.typeMismatch field kind v.kindName)

/-- The bytes of an array's elements, named by their places. -/
def encodeItems (e : Encoding) : List Value → Kind → String → Nat → Except Error (List UInt8)
  | [], _, _, _ => .ok []
  | v :: vs, elem, field, i => do
    let bytes ← v.encode e elem (field ++ "[" ++ toString i ++ "]")
    let rest ← encodeItems e vs elem field (i + 1)
    return bytes ++ rest

end

end NovelChart.Value
