/-!
Cutting text into lines and at separators.
-/

namespace NovelChart.Text

/-- The pieces of a text between separators. There is always one more piece than separators. -/
def pieces (separator : Char) : List Char → List (List Char)
  | [] => [[]]
  | c :: cs =>
    if c = separator then [] :: pieces separator cs
    else
      match pieces separator cs with
      | [] => [[c]]
      | piece :: rest => (c :: piece) :: rest

/-- A line without one carriage return at its end. -/
def dropReturn (line : List Char) : List Char :=
  if line.getLast? = some '\r' then line.dropLast else line

/-- The lines of a text. A line ends with a line feed, which may have a carriage return before it;
what follows the last line feed is a line if it is not empty. -/
def lines (cs : List Char) : List (List Char) :=
  let all := pieces '\n' cs
  all.dropLast.map dropReturn ++ (all.getLast?.toList.filter fun line => !line.isEmpty)

/-- What stands before and behind the last occurrence of a separator. -/
def splitLast? (separator : Char) (cs : List Char) : Option (List Char × List Char) :=
  let behind := (cs.reverse.takeWhile (· != separator)).reverse
  match cs.take (cs.length - behind.length) with
  | [] => none
  | front => some (front.dropLast, behind)

/-- What follows an opening, if the text begins with it. -/
def dropOpening? : List Char → List Char → Option (List Char)
  | [], cs => some cs
  | _ :: _, [] => none
  | p :: ps, c :: cs => if p = c then dropOpening? ps cs else none

/-- There is always a piece. -/
theorem pieces_ne_nil (separator : Char) (cs : List Char) : pieces separator cs ≠ [] := by
  cases cs with
  | nil => simp [pieces]
  | cons c cs =>
    simp only [pieces]
    split
    · simp
    · split <;> simp

end NovelChart.Text
