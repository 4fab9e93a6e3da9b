/-!
Kinds of parameter values. A kind is what a schema declares for a slot; an array kind declares the
kind of its elements.
-/

namespace NovelChart

/-- The declared kind of a parameter slot. -/
inductive Kind
  | int
  | real
  | flag
  | str
  | array (elem : Kind)
  deriving DecidableEq, Repr, Inhabited

namespace Kind

/-- The fewest bytes that a value of the kind takes. -/
def minSize : Kind → Nat
  | int => 4
  | real => 8
  | flag => 1
  | str => 4
  | array _ => 4

/-- The text of a kind. -/
def name : Kind → String
  | int => "Int"
  | real => "Real"
  | flag => "Flag"
  | str => "Str"
  | array elem => "Array<" ++ elem.name ++ ">"

/-- A value of any kind takes at least one byte. -/
theorem minSize_pos (k : Kind) : 0 < k.minSize := by
  cases k <;> simp [minSize]

end Kind

end NovelChart
