import NovelChart.Error
import NovelChart.Text.Lines

/-!
Identifiers of segments: the name of a chart, a line and the number of a segment on that line. The
name stands first and is not protected in any way, so an identifier is taken apart from its end.
-/

namespace NovelChart

/-- The address of a segment. -/
structure TextId where
  /-- The name of the chart. -/
  name : String
  line : Nat
  index : Nat
  deriving DecidableEq, Repr

namespace TextId

/-- How every identifier begins. -/
def opening : String := "lsb:text:"

/-- The text of an identifier. -/
def text (id : TextId) : String :=
  opening ++ id.name ++ ":" ++ toString id.line ++ ":" ++ toString id.index

/-- The identifier that a text spells. -/
def ofText? (s : String) : Option TextId := do
  let rest ← Text.dropOpening? opening.toList s.toList
  let (rest, index) ← Text.splitLast? ':' rest
  let (name, line) ← Text.splitLast? ':' rest
  let index ← (Text.readPosition index).toOption
  let line ← (Text.readPosition line).toOption
  return ⟨String.ofList name, line, index⟩

/-- The identifier that a text spells, or a refusal of the text. -/
def ofText (s : String) : Except Error TextId :=
  match ofText? s with
  | some id => .ok id
  | none => .error (.badIdentifier s)

end TextId

end NovelChart
