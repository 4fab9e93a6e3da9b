import NovelChart.Decimal.Shortest

/-!
Reading decimals: the binary64 number nearest to a decimal, a half going to the even neighbour. All
arithmetic is on natural numbers, so the result is exact.
-/

namespace NovelChart.Decimal

/-- The quotient rounded to the nearest number, a half going to the even one. -/
def roundDiv (n d : Nat) : Nat :=
  let down := n / d
  let rest := 2 * (n % d)
  if d < rest ∨ (rest = d ∧ down % 2 = 1) then down + 1 else down

/-- The pattern of infinity. -/
def infinity : Nat := 2047 * hiddenBit

/-- The pattern of the number nearest to a positive fraction. The mantissa is cut to fifty-three
bits, or fewer below the normal numbers; a carry out of the mantissa goes into the exponent. -/
def nearestFraction (n d : Nat) : Nat :=
  let scaled := fun (q : Int) => (n * Nat.pow 2 (-q).toNat, d * Nat.pow 2 q.toNat)
  let guess : Int := max ((n.log2 : Int) - d.log2 - 53) (-1074)
  let (a, b) := scaled guess
  let q := if 2 * hiddenBit ≤ a / b then guess + 1 else guess
  let (a, b) := scaled q
  let mantissa := roundDiv a b
  if mantissa < hiddenBit then mantissa
  else min infinity ((q + 1075).toNat * hiddenBit + mantissa - hiddenBit)

/-- The pattern of the number nearest to `digits * 10 ^ exponent`. Exponents far beyond the range of
binary64 are answered without computing the power. -/
def nearest (digits : Nat) (exponent : Int) : Nat :=
  if digits = 0 then 0
  else if 400 < exponent then infinity
  else if exponent + digits.log2 < -1200 then 0
  else nearestFraction (digits * Nat.pow 10 exponent.toNat) (Nat.pow 10 (-exponent).toNat)

/-- The value of digits, if there is nothing else. -/
def digits? (cs : List Char) : Option Nat :=
  if cs.all Char.isDigit then some (cs.foldl (fun n c => n * 10 + (c.toNat - '0'.toNat)) 0)
  else none

/-- The exponent behind its mark, or zero where there is none. -/
def exponent? : List Char → Option Int
  | [] => some 0
  | _ :: '-' :: cs => if cs.isEmpty then none else (digits? cs).map fun n => -(n : Int)
  | _ :: '+' :: cs => if cs.isEmpty then none else (digits? cs).map fun n => (n : Int)
  | _ :: cs => if cs.isEmpty then none else (digits? cs).map fun n => (n : Int)

/-- The pattern of an unsigned decimal with a point or an exponent. -/
def ofUnsigned? (cs : List Char) : Option Nat := do
  let isMark := fun c => c == 'e' || c == 'E'
  let number := cs.takeWhile fun c => !isMark c
  let exponent ← exponent? (cs.dropWhile fun c => !isMark c)
  let whole := number.takeWhile (· != '.')
  let places := (number.dropWhile (· != '.')).drop 1
  if whole.isEmpty && places.isEmpty then none
  else
    let value ← digits? (whole ++ places)
    return nearest value (exponent - places.length)

/-- The bit pattern of a decimal. -/
def ofText? : List Char → Option UInt64
  | '-' :: cs => (ofUnsigned? cs).map fun bits => UInt64.ofNat (bits + signBit)
  | '+' :: cs => (ofUnsigned? cs).map UInt64.ofNat
  | cs => (ofUnsigned? cs).map UInt64.ofNat

end NovelChart.Decimal
