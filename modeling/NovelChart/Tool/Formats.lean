import NovelChart.Document.Lines
import NovelChart.Sheet
import NovelChart.Tool.Settings

/-!
The formats of documents, sheets and settings. What the tool does with a sheet or with settings does
not depend on how they are spelled, so the formats are a parameter of a run. A reader may accept any
texts whatever: all that a run asks of it is the sheet or the settings, if there are any.
-/

namespace NovelChart

/-- How documents are written, and how sheets and settings are read. -/
structure Formats where
  /-- The text of a document. -/
  print : Document → String
  /-- The sheet that a text spells. -/
  sheet? : String → Option Sheet
  /-- The settings that a text spells. -/
  settings? : String → Option Settings

/-- The formats of the tool as it is run here: documents and sheets in flow style, settings as lines.
No result about runs rests on them. -/
def Formats.flow : Formats where
  print := Document.toText
  sheet? text := (Document.ofText? text).bind Sheet.ofDocument?
  settings? text := (Document.ofLines? text).bind Settings.ofDocument?

end NovelChart
