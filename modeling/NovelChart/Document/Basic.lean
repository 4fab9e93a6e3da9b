import NovelChart.Decimal.Shortest

/-!
Documents: trees of scalars, lists and records, in which listings, sheets and settings are written.
A scalar is read as text where text is wanted; the other readings are strict.
-/

namespace NovelChart

/-- A tree of data. -/
inductive Document
  | null
  | flag (b : Bool)
  | int (n : Int)
  | real (bits : UInt64)
  | text (s : String)
  | list (items : List Document)
  | record (fields : List (String × Document))
  deriving Repr, Inhabited

namespace Document

/-- The text of a real: its fewest digits, a half going to the even ones. There is a point in them
when at most sixteen digits stand before it and at most four zeros behind it; other numbers have an
exponent. -/
def realText (bits : UInt64) : String :=
  let sign := if Decimal.isNegative bits then "-" else ""
  if Decimal.isNaN bits then ".nan"
  else if !Decimal.isFinite bits then sign ++ ".inf"
  else if Decimal.isZero bits then sign ++ "0.0"
  else
    let (point, grid) := Decimal.shortest .toEven (Decimal.magnitude bits)
    let places := (Nat.toDigits 10 point).length + grid
    sign ++ String.ofList
      (if places ≤ -5 ∨ 16 < places then Decimal.scientific point grid
      else if 0 ≤ grid then Decimal.positional point grid ++ ['.', '0']
      else Decimal.positional point grid)

/-- The text of a scalar. -/
def asText? : Document → Option String
  | null => some "null"
  | flag b => some (if b then "true" else "false")
  | int n => some (toString n)
  | real bits => some (realText bits)
  | text s => some s
  | list _ => none
  | record _ => none

/-- The natural number that a document is. -/
def asNat? : Document → Option Nat
  | int n => if 0 ≤ n ∧ n < 0x10000000000000000 then some n.toNat else none
  | _ => none

/-- The truth value that a document is. -/
def asFlag? : Document → Option Bool
  | flag b => some b
  | _ => none

/-- The items of a list. -/
def asList? : Document → Option (List Document)
  | list items => some items
  | _ => none

/-- The values of the named fields of a record. -/
def fields? (names : List String) : Document → Option (List (Option Document))
  | record fields => some (names.map fun name => fields.lookup name)
  | _ => none

/-- A natural number as a document. -/
def nat (n : Nat) : Document :=
  int n

/-- A field that is only written when there is something to write. -/
def optional (name : String) (value : Option Document) : List (String × Document) :=
  value.toList.map fun v => (name, v)

end Document

end NovelChart
