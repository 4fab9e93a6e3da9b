import NovelChart.Text.Numeral
import NovelChart.Text.Printable

/-!
Quoted text, as messages and listings show it: in double quotes, with a backslash before a quote or
a backslash, short escapes for the common controls, and the code point of anything else that would
not show.
-/

namespace NovelChart.Text

/-- One character inside quoted text. -/
def quotedChar (c : Char) : List Char :=
  if c = '"' then ['\\', '"']
  else if c = '\\' then ['\\', '\\']
  else if c = '\t' then ['\\', 't']
  else if c = '\n' then ['\\', 'n']
  else if c = '\r' then ['\\', 'r']
  else if c = '\x00' then ['\\', '0']
  else if isPrintable c then [c]
  else ['\\', 'u', '\x7b'] ++ Nat.toDigits 16 c.toNat ++ ['\x7d']

/-- A text in quotes. -/
def quoted (s : String) : String :=
  String.ofList ('"' :: s.toList.flatMap quotedChar ++ ['"'])

/-- Texts in quotes, as a bracketed list. -/
def quotedList (words : List String) : String :=
  "[" ++ String.intercalate ", " (words.map quoted) ++ "]"

end NovelChart.Text
