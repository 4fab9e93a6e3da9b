import NovelChart.Decimal.Shortest
import NovelChart.Text.Quoted
import NovelChart.Value.Kind

/-!
Parameter values of commands. A real is held as its 64-bit pattern, so that two values are equal
exactly when their encodings are.
-/

namespace NovelChart

/-- A command parameter. -/
inductive Value
  | int (n : Int32)
  | real (bits : UInt64)
  | flag (b : Bool)
  | str (s : String)
  | array (items : List Value)
  deriving Repr, Inhabited

namespace Value

/-- The name of a value's outermost kind. -/
def kindName : Value → String
  | int _ => "Int"
  | real _ => "Real"
  | flag _ => "Flag"
  | str _ => "Str"
  | array _ => "Array"

/-- The number, if the value is one. -/
def asInt? : Value → Option Int32
  | int n => some n
  | _ => none

/-- The text, if the value is one. -/
def asStr? : Value → Option String
  | str s => some s
  | _ => none

/-- The truth value, if the value is one. -/
def asFlag? : Value → Option Bool
  | flag b => some b
  | _ => none

mutual

/-- Whether a value may stand in a slot of a kind, elements included. -/
def fits : Value → Kind → Bool
  | int _, .int => true
  | real _, .real => true
  | flag _, .flag => true
  | str _, .str => true
  | array items, .array elem => fitsAll items elem
  | _, _ => false

/-- Whether every value of a list fits a kind. -/
def fitsAll : List Value → Kind → Bool
  | [], _ => true
  | v :: vs, k => v.fits k && fitsAll vs k

end

mutual

/-- The text of a value in listings. -/
def text : Value → String
  | int n => Text.int32 n
  | real bits => Decimal.text bits
  | flag b => if b then "true" else "false"
  | str s => Text.quoted s
  | array items => "[" ++ String.intercalate ", " (texts items) ++ "]"

/-- The texts of values. -/
def texts : List Value → List String
  | [] => []
  | v :: vs => v.text :: texts vs

end

mutual

/-- Whether two values denote the same, reals being compared as numbers. -/
def agrees : Value → Value → Bool
  | int a, int b => a == b
  | real a, real b => Decimal.sameNumber a b
  | flag a, flag b => a == b
  | str a, str b => a == b
  | array a, array b => agreesAll a b
  | _, _ => false

/-- Whether two lists of values agree place by place. -/
def agreesAll : List Value → List Value → Bool
  | [], [] => true
  | a :: as, b :: bs => a.agrees b && agreesAll as bs
  | _, _ => false

end

end Value

end NovelChart
