import NovelChart.Failure
import NovelChart.Text.Blank
import NovelChart.Text.Lines
import NovelChart.Tool.Path

/-!
References to script files. An index lists, line by line, the file of a script and the line of the
chart that it belongs to. The file name is not protected, so a reference is taken apart from its
end.
-/

namespace NovelChart

/-- A script file and the line of the chart that it belongs to. -/
structure Reference where
  file : String
  line : Nat
  deriving DecidableEq, Repr

namespace Reference

/-- The text of a reference. -/
def text (r : Reference) : String :=
  r.file ++ ":" ++ toString r.line

/-- The reference that a text spells. -/
def ofText (s : String) : Except Failure Reference :=
  match Text.splitLast? ':' (Text.dropBlanksEnd s.toList) with
  | none => .error (.of (.badReference s))
  | some (file, line) =>
    if file.isEmpty then .error (.of (.namelessReference s))
    else
      match Text.readPosition (Text.trim line) with
      | .ok line => .ok ⟨String.ofList file, line⟩
      | .error fault => .error (.during (.readingReference s) (.numeral fault))

/-- The text of an index. -/
def indexText (refs : List Reference) : String :=
  String.join (refs.map fun r => r.text ++ "\n")

/-- The entries of an index: its lines that are not blank. -/
def indexEntries (text : String) : List String :=
  ((Text.lines text.toList).filter fun line => !(Text.trim line).isEmpty).map String.ofList

/-- The path of the index of a chart. -/
def indexPath (dir stem : String) : String :=
  Path.join dir (stem ++ ".lsbref")

/-- Whether a file name may not hold the character. -/
def isForbidden (c : Char) : Bool :=
  c ∈ ['\\', '/', ':', '*', '?', '"', '<', '>', '|']

/-- A name with every run of forbidden characters turned into one underscore. The flag tells
whether a run is open. -/
def escapeFrom : Bool → List Char → List Char
  | _, [] => []
  | inRun, c :: cs =>
    if isForbidden c then if inRun then escapeFrom true cs else '_' :: escapeFrom true cs
    else c :: escapeFrom false cs

/-- A scenario name that may stand in a file name. -/
def escapeName (name : String) : String :=
  String.ofList (escapeFrom false name.toList)

end Reference

end NovelChart
