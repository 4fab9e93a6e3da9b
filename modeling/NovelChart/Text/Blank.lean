/-!
Blank characters and trimming. A character is blank when Unicode gives it the `White_Space`
property, which includes the ideographic space and the no-break space but no zero-width character.
-/

namespace NovelChart.Text

/-- The `White_Space` property. -/
def isBlank (c : Char) : Bool :=
  let n := c.toNat
  (0x09 ≤ n && n ≤ 0x0D) || n == 0x20 || n == 0x85 || n == 0xA0 || n == 0x1680 ||
    (0x2000 ≤ n && n ≤ 0x200A) || n == 0x2028 || n == 0x2029 || n == 0x202F || n == 0x205F ||
    n == 0x3000

/-- Characters without the blanks at their front. -/
def dropBlanks (cs : List Char) : List Char :=
  cs.dropWhile isBlank

/-- Characters without the blanks at their back. -/
def dropBlanksEnd (cs : List Char) : List Char :=
  (cs.reverse.dropWhile isBlank).reverse

/-- Characters without the blanks at either end. -/
def trim (cs : List Char) : List Char :=
  dropBlanksEnd (dropBlanks cs)

/-- Dropping leading blanks never makes a text longer. -/
theorem length_dropBlanks_le (cs : List Char) : (dropBlanks cs).length ≤ cs.length :=
  (List.dropWhile_sublist isBlank).length_le

end NovelChart.Text
