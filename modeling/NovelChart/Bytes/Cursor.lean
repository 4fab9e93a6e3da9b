import NovelChart.Bytes.Fault
import NovelChart.Bytes.LittleEndian

/-!
Reading bytes from front to back. A cursor holds what is left of a byte string together with the
absolute offset of its first byte, which is where a failing read is reported. A part of the bytes
can be split off as a cursor of its own that shares these offsets.
-/

namespace NovelChart

/-- How bytes are read: the encoding of strings, and whether a declared count is refused at once
when its elements cannot fit into the bytes that are left. -/
structure Reading where
  encoding : Encoding
  guarded : Bool := true
  deriving DecidableEq, Repr

/-- A place in a byte string, with the bytes from there on. -/
structure Cursor where
  /-- The opcode of the record being read. -/
  opcode : Option Opcode
  /-- The absolute offset of the next byte. -/
  offset : Nat
  /-- The bytes from here on. -/
  rest : List UInt8
  deriving DecidableEq, Repr

/-- A value that was read, and the cursor behind it. -/
abbrev Step (α : Type) := α × Cursor

namespace Cursor

/-- A cursor at an offset of a byte string, which may lie past its end. -/
def ofOffset (bytes : List UInt8) (offset : Nat) : Cursor :=
  ⟨none, offset, bytes.drop offset⟩

/-- A cursor at the front of a byte string. -/
def ofBytes (bytes : List UInt8) : Cursor :=
  ⟨none, 0, bytes⟩

/-- How many bytes are left. -/
def remaining (c : Cursor) : Nat :=
  c.rest.length

/-- Whether no byte is left. -/
def isEmpty (c : Cursor) : Bool :=
  c.rest.isEmpty

/-- A fault found at the cursor. -/
def error (c : Cursor) (fault : FormatFault) : FormatError :=
  ⟨c.opcode, c.offset, fault⟩

/-- The cursor behind the next `n` bytes. -/
def skip (c : Cursor) (n : Nat) : Cursor :=
  { c with offset := c.offset + n, rest := c.rest.drop n }

/-- The next `n` bytes. -/
def take (c : Cursor) (n : Nat) : Except FormatError (Step (List UInt8)) :=
  if n ≤ c.remaining then .ok (c.rest.take n, c.skip n) else .error (c.error .truncated)

/-- The next byte. -/
def u8 (c : Cursor) : Except FormatError (Step UInt8) :=
  match c.rest with
  | b :: rest => .ok (b, { c with offset := c.offset + 1, rest := rest })
  | [] => .error (c.error .truncated)

/-- The next 32-bit word. -/
def u32 (c : Cursor) : Except FormatError (Step UInt32) := do
  let (bytes, c) ← c.take 4
  return (UInt32.ofNat (Bytes.toNatLE bytes), c)

/-- The next signed 32-bit word. -/
def i32 (c : Cursor) : Except FormatError (Step Int32) := do
  let (word, c) ← c.u32
  return (word.toInt32, c)

/-- The next 64-bit pattern. -/
def u64 (c : Cursor) : Except FormatError (Step UInt64) := do
  let (bytes, c) ← c.take 8
  return (UInt64.ofNat (Bytes.toNatLE bytes), c)

/-- The next `n` bytes as a cursor of their own, and the cursor behind them. -/
def split (c : Cursor) (n : Nat) : Except FormatError (Step Cursor) := do
  let (bytes, behind) ← c.take n
  return ({ c with rest := bytes }, behind)

/-- A value read `n` times. -/
def many {α : Type} (read : Cursor → Except FormatError (Step α)) :
    Nat → Cursor → Except FormatError (Step (List α))
  | 0, c => .ok ([], c)
  | n + 1, c => do
    let (a, c) ← read c
    let (as, c) ← many read n c
    return (a :: as, c)

/-- Whether `n` elements of at least `size` bytes can be left, as far as the reading asks. -/
def admits (c : Cursor) (r : Reading) (n size : Nat) : Bool :=
  !r.guarded || n * size ≤ c.remaining

/-- Refuses bytes that are left over. -/
def finish (c : Cursor) : Except FormatError Unit :=
  if c.isEmpty then .ok () else .error (c.error (.trailingBytes c.remaining))

/-- A text with its byte count in front. -/
def text (r : Reading) (c : Cursor) : Except FormatError (Step String) := do
  let (length, body) ← c.u32
  if body.remaining < length.toNat then
    .error (c.error (.stringOverrun length.toNat body.remaining))
  let (bytes, behind) ← body.take length.toNat
  match r.encoding.decode bytes with
  | .ok s => .ok (s, behind)
  | .error fault => .error (body.error (.badString fault))

end Cursor

end NovelChart
