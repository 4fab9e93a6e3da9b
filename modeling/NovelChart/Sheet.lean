import NovelChart.Chart.Text
import NovelChart.Document.Basic
import NovelChart.Failure
import NovelChart.Notice

/-!
Sheets. A sheet lists the segments and menu choices of a chart with their wording and room for a
replacement. Applying a sheet puts the replacements in, provided that the chart still has the
wording that the sheet was made from; other entries are skipped with a notice. Segments are edited
before choices, and edits made before a failure stay.
-/

namespace NovelChart

/-- The entry of a segment. -/
structure TextEntry where
  id : String
  wording : String
  replacement : String := ""
  deriving DecidableEq, Repr

/-- The entry of a menu choice. -/
structure ChoiceEntry where
  line : Nat
  index : Nat
  wording : String
  replacement : String := ""
  deriving DecidableEq, Repr

/-- The texts of one chart. -/
structure Sheet where
  chart : String
  texts : List TextEntry := []
  choices : List ChoiceEntry := []
  deriving DecidableEq, Repr

/-! ### Sheets as documents -/

namespace TextEntry

/-- The document of an entry. -/
def toDocument (e : TextEntry) : Document :=
  .record [("id", .text e.id), ("original", .text e.wording),
    ("translation", .text e.replacement)]

/-- The entry that a document holds. -/
def ofDocument? (d : Document) : Option TextEntry := do
  match ← d.fields? ["id", "original", "translation"] with
  | [id, wording, replacement] =>
    return ⟨← (← id).asText?, ← (← wording).asText?, ← (replacement.getD (.text "")).asText?⟩
  | _ => none

end TextEntry

namespace ChoiceEntry

/-- The document of an entry. -/
def toDocument (e : ChoiceEntry) : Document :=
  .record [("line", .nat e.line), ("index", .nat e.index), ("original", .text e.wording),
    ("translation", .text e.replacement)]

/-- The entry that a document holds. -/
def ofDocument? (d : Document) : Option ChoiceEntry := do
  match ← d.fields? ["line", "index", "original", "translation"] with
  | [line, index, wording, replacement] =>
    return ⟨← (← line).asNat?, ← (← index).asNat?, ← (← wording).asText?,
      ← (replacement.getD (.text "")).asText?⟩
  | _ => none

end ChoiceEntry

namespace Sheet

/-- The document of a sheet. -/
def toDocument (s : Sheet) : Document :=
  .record [("chart", .text s.chart), ("texts", .list (s.texts.map TextEntry.toDocument)),
    ("choices", .list (s.choices.map ChoiceEntry.toDocument))]

/-- The sheet that a document holds. -/
def ofDocument? (d : Document) : Option Sheet := do
  match ← d.fields? ["chart", "texts", "choices"] with
  | [chart, texts, choices] =>
    return ⟨← (← chart).asText?,
      ← (← (texts.getD (.list [])).asList?).mapM TextEntry.ofDocument?,
      ← (← (choices.getD (.list [])).asList?).mapM ChoiceEntry.ofDocument?⟩
  | _ => none

/-! ### Extracting -/

/-- The sheet of a chart under a name, without replacements. -/
def ofChart (c : Chart) (name : String) : Sheet where
  chart := name
  texts := (c.texts name).map fun (id, text) => { id := id.text, wording := text }
  choices := c.choices.map fun choice =>
    { line := choice.line, index := choice.index, wording := choice.text }

/-! ### Applying -/

/-- What is left when applying stops: the chart, what was told, and how it ended. -/
structure Applied where
  chart : Chart
  notices : List Notice
  result : Except Failure Nat
  deriving Repr

/-- The edits that entries ask for, and what is told of those that are skipped. Entries without a
replacement ask for nothing. -/
def edits (name : String) (current : List (TextId × String)) :
    List TextEntry → List Notice × Except Failure (List (TextId × String))
  | [] => ([], .ok [])
  | entry :: rest =>
    if entry.replacement.isEmpty then edits name current rest
    else
      match TextId.ofText entry.id with
      | .error e => ([], .error (.of (.chart e)))
      | .ok id =>
        if id.name ≠ name then ([], .error (.of (.foreignText entry.id name)))
        else
          let (notices, more) := edits name current rest
          -- What was told stays told when a later entry fails.
          if current.lookup id = some entry.wording then
            (notices, more.map ((id, entry.replacement) :: ·))
          else (.staleText entry.id :: notices, more)

/-- Whether a choice is what an entry was made from. -/
def fromChoice (entry : ChoiceEntry) (choice : Choice) : Bool :=
  choice.line == entry.line && choice.index == entry.index && choice.text == entry.wording

/-- Replaces menu choices, counting on from a number. Entries are compared with the choices as they
were before any of them was replaced. -/
def applyChoices (current : List Choice) : List ChoiceEntry → Nat → Chart → Applied
  | [], count, c => ⟨c, [], .ok count⟩
  | entry :: rest, count, c =>
    if entry.replacement.isEmpty then applyChoices current rest count c
    else if current.any (fromChoice entry) then
      match c.replaceChoice entry.line entry.index entry.replacement with
      | .ok c => applyChoices current rest (count + 1) c
      | .error e =>
        ⟨c, [], .error (.during (.insertingChoice entry.line entry.index) (.chart e))⟩
    else
      let applied := applyChoices current rest count c
      { applied with notices := .staleChoice entry.line entry.index :: applied.notices }

/-- Applies a sheet; the result counts the replacements. -/
def apply (s : Sheet) (c : Chart) : Applied :=
  let (notices, edits) := edits s.chart (c.texts s.chart) s.texts
  match edits with
  | .error f => ⟨c, notices, .error f⟩
  | .ok edits =>
    match c.replaceTexts edits with
    | (.error e, c) => ⟨c, notices, .error (.during (.insertingTexts s.chart) (.chart e))⟩
    | (.ok count, c) =>
      let applied := applyChoices c.choices s.choices count c
      { applied with notices := notices ++ applied.notices }

end Sheet

end NovelChart
