/-!
Decimal text of binary64 numbers. A number is shown by the fewest digits that read back as the same
number: of the decimal grids, the coarsest one that has a point inside the interval of reals that
round to the number, and on that grid the point nearest to the number. Between two points that are
equally near a rule decides. All arithmetic is on natural numbers, so the result is exact.
-/

namespace NovelChart.Decimal

/-- A positive real of the form `mantissa * 2 ^ exponent`. -/
structure Dyadic where
  mantissa : Nat
  exponent : Int
  deriving DecidableEq, Repr

/-- The weight of the leading bit of a mantissa, which bit patterns leave out. -/
def hiddenBit : Nat := 0x10000000000000

/-- The weight of the sign in a bit pattern. -/
def signBit : Nat := 0x8000000000000000

/-- The biased exponent of a bit pattern. -/
def biasedExponent (bits : UInt64) : Nat :=
  (bits >>> 52).toNat % 2048

/-- The fraction field of a bit pattern. -/
def fraction (bits : UInt64) : Nat :=
  bits.toNat % hiddenBit

/-- Whether the sign bit is set. -/
def isNegative (bits : UInt64) : Bool :=
  signBit ≤ bits.toNat

/-- Whether a bit pattern is a number, neither an infinity nor a NaN. -/
def isFinite (bits : UInt64) : Bool :=
  biasedExponent bits != 2047

/-- Whether a bit pattern is a NaN. -/
def isNaN (bits : UInt64) : Bool :=
  biasedExponent bits == 2047 && fraction bits != 0

/-- Whether a bit pattern is a zero of either sign. -/
def isZero (bits : UInt64) : Bool :=
  bits.toNat % signBit == 0

/-- Equality of the numbers that two bit patterns stand for: zeros are equal, NaNs are not. -/
def sameNumber (a b : UInt64) : Bool :=
  !isNaN a && !isNaN b && (a == b || (isZero a && isZero b))

/-- The magnitude of a finite bit pattern. -/
def magnitude (bits : UInt64) : Dyadic :=
  if biasedExponent bits = 0 then ⟨fraction bits, -1074⟩
  else ⟨hiddenBit + fraction bits, (biasedExponent bits : Int) - 1075⟩

/-- `x * 2 ^ exponent / 10 ^ grid` as a numerator over the denominator of `gridUnit`. -/
def onGrid (x : Nat) (exponent grid : Int) : Nat :=
  x * Nat.pow 2 exponent.toNat * Nat.pow 10 (-grid).toNat

/-- The denominator that `onGrid` counts in. -/
def gridUnit (exponent grid : Int) : Nat :=
  Nat.pow 2 (-exponent).toNat * Nat.pow 10 grid.toNat

/-- Which of two decimals that are equally near to a number is taken. -/
inductive TieRule
  | up
  | toEven
  deriving DecidableEq, Repr

/-- Whether a number halfway above a point goes to the next point. -/
def TieRule.goesUp : TieRule → Nat → Bool
  | up, _ => true
  | toEven, below => below % 2 == 1

/-- The point of a decimal grid that reads back as the number and lies nearest to it, if there is
one. Four times the mantissa keeps the interval's ends integral; the ends belong to the interval
when the mantissa is even. -/
def nearestPoint? (tie : TieRule) (x : Dyadic) (grid : Int) : Option Nat :=
  let unit := gridUnit (x.exponent - 2) grid
  let scaled := fun n => onGrid n (x.exponent - 2) grid
  let value := scaled (4 * x.mantissa)
  let gap := if x.mantissa = hiddenBit ∧ -1074 < x.exponent then 1 else 2
  let low := scaled (4 * x.mantissa - gap)
  let high := scaled (4 * x.mantissa + 2)
  let inside := fun point =>
    if x.mantissa % 2 = 0 then low ≤ point * unit && point * unit ≤ high
    else low < point * unit && point * unit < high
  let below := value / unit
  let above := below + 1
  let rest := 2 * (value - below * unit)
  if inside below then
    if inside above && (unit < rest || (unit == rest && tie.goesUp below)) then some above
    else some below
  else if inside above then some above
  else none

/-- Searches the grids from coarse to fine; the grid of step `n` is `10 ^ (n - 343)`. -/
def searchGrids (tie : TieRule) (x : Dyadic) : Nat → Nat × Int
  | 0 => (0, 0)
  | n + 1 =>
    let grid : Int := (n : Int) - 343
    match nearestPoint? tie x grid with
    | some point => (point, grid)
    | none => searchGrids tie x n

/-- The shortest decimal `point * 10 ^ grid` of a positive number. -/
def shortest (tie : TieRule) (x : Dyadic) : Nat × Int :=
  searchGrids tie x 653

/-- `point * 10 ^ grid` without an exponent mark. -/
def positional (point : Nat) (grid : Int) : List Char :=
  let digits := Nat.toDigits 10 point
  let places := (-grid).toNat
  if places = 0 then digits ++ List.replicate grid.toNat '0'
  else if places < digits.length then
    digits.take (digits.length - places) ++ '.' :: digits.drop (digits.length - places)
  else '0' :: '.' :: List.replicate (places - digits.length) '0' ++ digits

/-- `point * 10 ^ grid` with one digit before the point and an exponent. -/
def scientific (point : Nat) (grid : Int) : List Char :=
  let digits := Nat.toDigits 10 point
  let places := if digits.length ≤ 1 then [] else '.' :: digits.drop 1
  digits.take 1 ++ places ++ 'e' :: (toString (grid + digits.length - 1)).toList

/-- The text of the number that a bit pattern stands for. -/
def text (bits : UInt64) : String :=
  let sign := if isNegative bits then "-" else ""
  if isNaN bits then "NaN"
  else if !isFinite bits then sign ++ "inf"
  else if isZero bits then sign ++ "0"
  else
    let (point, grid) := shortest .up (magnitude bits)
    sign ++ String.ofList (positional point grid)

end NovelChart.Decimal
