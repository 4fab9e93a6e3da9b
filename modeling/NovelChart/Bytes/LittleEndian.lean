/-!
Little-endian words. Each width has a writer that lists its bytes, least significant first, and a
reader that takes exactly that many bytes from the front of a byte string.
-/

namespace NovelChart.Bytes

/-- The value of bytes, least significant first. -/
def toNatLE : List UInt8 → Nat
  | [] => 0
  | b :: rest => b.toNat + 256 * toNatLE rest

/-- The `width` low bytes of a number, least significant first. -/
def ofNatLE : Nat → Nat → List UInt8
  | 0, _ => []
  | width + 1, n => UInt8.ofNat n :: ofNatLE width (n / 256)

/-- A number written in `width` bytes takes `width` bytes. -/
@[simp] theorem length_ofNatLE (width n : Nat) : (ofNatLE width n).length = width := by
  induction width generalizing n with
  | zero => rfl
  | succ width ih => simp [ofNatLE, ih]

/-- The four bytes of a 32-bit word. -/
def u32 (n : UInt32) : List UInt8 :=
  ofNatLE 4 n.toNat

/-- The four bytes of a count. A count of more than thirty-two bits keeps its low bits. -/
def count (n : Nat) : List UInt8 :=
  u32 (UInt32.ofNat n)

/-- The four bytes of a signed 32-bit word, in two's complement. -/
def i32 (n : Int32) : List UInt8 :=
  u32 n.toUInt32

/-- The eight bytes of a 64-bit pattern. -/
def u64 (n : UInt64) : List UInt8 :=
  ofNatLE 8 n.toNat

/-- Bytes with their count in front. -/
def counted (bytes : List UInt8) : List UInt8 :=
  count bytes.length ++ bytes

end NovelChart.Bytes
