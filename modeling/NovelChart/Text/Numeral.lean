/-!
Numerals in text. Decimal numerals are read left to right into a bounded range; the first character
that is no digit, or the first digit that leaves the range, decides the fault. Hexadecimal numerals
are only written, for byte values and offsets in messages.
-/

namespace NovelChart.Text

/-- Why a text is no numeral of the wanted range. -/
inductive NumeralFault
  | empty
  | invalidDigit
  | tooLarge
  deriving DecidableEq, Repr

/-- The wording of a numeral fault. -/
def NumeralFault.message : NumeralFault → String
  | .empty => "cannot parse integer from empty string"
  | .invalidDigit => "invalid digit found in string"
  | .tooLarge => "number too large to fit in target type"

/-- The value of an ASCII digit. -/
def digit? (c : Char) : Option Nat :=
  if c.isDigit then some (c.toNat - '0'.toNat) else none

/-- Digits read onto an accumulator, as long as the value stays below the limit. -/
def readDigits (limit : Nat) : Nat → List Char → Except NumeralFault Nat
  | value, [] => .ok value
  | value, c :: cs =>
    match digit? c with
    | none => .error .invalidDigit
    | some d =>
      if value * 10 + d < limit then readDigits limit (value * 10 + d) cs else .error .tooLarge

/-- One more than the largest position that a numeral may name. -/
def positionLimit : Nat := 0x10000000000000000

/-- A natural numeral below the limit: digits after at most one plus sign. -/
def readNat (limit : Nat) : List Char → Except NumeralFault Nat
  | [] => .error .empty
  | '+' :: [] => .error .invalidDigit
  | '+' :: cs => readDigits limit 0 cs
  | cs => readDigits limit 0 cs

/-- A position: a natural numeral of at most sixty-four bits. -/
def readPosition (cs : List Char) : Except NumeralFault Nat :=
  readNat positionLimit cs

/-- A signed 32-bit numeral: digits after at most one sign. -/
def readInt32 : List Char → Option Int32
  | '-' :: [] => none
  | '-' :: cs =>
    match readDigits 0x80000001 0 cs with
    | .ok n => some (Int32.ofInt (-(n : Int)))
    | .error _ => none
  | cs =>
    match readNat 0x80000000 cs with
    | .ok n => some (Int32.ofInt n)
    | .error _ => none

/-- A signed 32-bit value in decimal. -/
def int32 (n : Int32) : String :=
  toString n.toInt

/-- Hexadecimal digits in lower case, padded with zeros to a width. -/
def hexDigits (width n : Nat) : String :=
  let digits := Nat.toDigits 16 n
  String.ofList (List.replicate (width - digits.length) '0' ++ digits)

/-- A hexadecimal numeral with its mark, padded to a number of digits. -/
def hex (width n : Nat) : String :=
  "0x" ++ hexDigits width n

/-- Bytes as two hexadecimal digits each. -/
def hexBytes (bytes : List UInt8) : String :=
  String.join (bytes.map fun b => hexDigits 2 b.toNat)

/-- A decimal numeral padded with zeros to three digits. -/
def threeDigits (n : Nat) : List Char :=
  let digits := Nat.toDigits 10 n
  List.replicate (3 - digits.length) '0' ++ digits

end NovelChart.Text
