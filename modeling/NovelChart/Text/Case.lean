/-!
Letter case of ASCII text. Names of opcodes, fields, tags and attributes are compared without
regard to case, and only the twenty-six unaccented letters have a case: every other character
stands for itself.
-/

namespace NovelChart.Text

/-- The text with its unaccented letters in upper case. -/
def upper (s : String) : String :=
  String.ofList (s.toList.map Char.toUpper)

/-- The text with its unaccented letters in lower case. -/
def lower (s : String) : String :=
  String.ofList (s.toList.map Char.toLower)

/-- Whether two texts agree up to the case of unaccented letters. -/
def sameLetters (a b : String) : Bool :=
  a.toList.map Char.toLower == b.toList.map Char.toLower

/-- Every text has the letters of itself. -/
@[simp] theorem sameLetters_self (a : String) : sameLetters a a = true := by
  simp [sameLetters]

end NovelChart.Text
