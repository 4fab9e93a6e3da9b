import NovelChart.Listing
import NovelChart.Sheet
import NovelChart.Tool.Request
import NovelChart.Tool.Scripts
import NovelChart.Validation

/-!
The jobs of the tool. The formats in which documents are written and sheets and settings are read are
the same throughout a run.
-/

namespace NovelChart.Run

/-- The lines that report a chart under a path. -/
def reportText (path : String) (r : Report) : String :=
  if r.isOk then path ++ ": ok (" ++ r.digest ++ ")\n"
  else
    path ++ ": FAILED (" ++ r.digest ++ " -> " ++ r.rebuiltDigest ++ ")\n" ++
      String.join (r.divergences.map fun d => "  chart differs at " ++ d.text ++ "\n") ++
      String.join (r.failedBlocks.map fun c =>
        "  text block at line " ++ toString c.line ++ ": " ++
          c.result.message?.getD "mismatch" ++ "\n")

/-- Certifies charts one after another and counts those that fail. -/
def validateAll (s : Settings) : List String → Nat → Tool Nat
  | [], failed => return failed
  | path :: rest, failed => do
    let bytes ← Action.during (.reading path) (Action.look (·.read path))
    Action.tellAll (Chart.readingNotices s.encoding bytes)
    let report ← Action.orFail (.during (.decoding path) ∘ .chart)
      (Validator.validate ⟨s.textOnly, s.keepComments⟩ s.encoding bytes)
    Action.tell report.notice
    Action.print (reportText path report)
    validateAll s rest (if report.isOk then failed else failed + 1)

/-- Writes the scripts of charts one after another. -/
def extractAll (s : Settings) (dir : String) (scripts : Encoding) : List String → Tool Unit
  | [] => pure ()
  | input :: rest => do
    let chart ← Store.loadChart input s.encoding
    let stem ← Store.entryStem input
    let refs ← Scripts.extract chart stem dir s.textOnly scripts
    Action.tell (.extracted refs.length input)
    extractAll s dir scripts rest

/-- Reads a sheet. -/
def loadSheet (formats : Formats) (path : String) : Tool Sheet := do
  let text ← Action.during (.reading path) (Action.look (·.readText path))
  match formats.sheet? text with
  | some sheet => return sheet
  | none => throw (.of .badSheet)

/-- Applies a sheet to a chart. -/
def applySheet (sheet : Sheet) (chart : Chart) : Tool (Chart × Nat) := do
  let applied := sheet.apply chart
  Action.tellAll applied.notices
  match applied.result with
  | .ok count => return (applied.chart, count)
  | .error f => throw f

/-- Does a job under some settings. -/
def job (formats : Formats) (s : Settings) : Job → Tool Unit
  | .info input => do
    let chart ← Store.loadChart input s.encoding
    Action.print (formats.print (Summary.ofChart chart).toDocument)
  | .validate inputs => do
    let failed ← validateAll s inputs 0
    if 0 < failed then throw (.of (.failedValidation failed inputs.length))
  | .dump input output textOnly => do
    let chart ← Store.loadChart input s.encoding
    Store.writeDocument formats output (chart.listing (s.textOnly || textOnly))
    Action.tell (.wrote output)
  | .extract inputs outputDir scripts => extractAll s (outputDir.getD ".") scripts inputs
  | .insert input script line scripts backup => do
    let chart ← Store.loadChart input s.encoding
    let chart ← Scripts.insert chart line script scripts s.keepComments
    Store.saveChart input chart (s.backup && backup)
    Action.tell (.insertedScript script line input)
  | .batchInsert input dir scripts backup ignoreMissing => do
    let chart ← Store.loadChart input s.encoding
    let stem ← Store.entryStem input
    let (chart, count) ← Scripts.insertAll chart stem dir scripts s.keepComments ignoreMissing
    Store.saveChart input chart (s.backup && backup)
    Action.tell (.insertedScripts count input)
  | .extractSheet input output => do
    let chart ← Store.loadChart input s.encoding
    let name ← Store.entryName input
    let sheet := Sheet.ofChart chart name
    Store.writeDocument formats output sheet.toDocument
    Action.tell (.wroteSheet sheet.texts.length sheet.choices.length output)
  | .insertSheet input sheetPath backup => do
    let chart ← Store.loadChart input s.encoding
    let sheet ← loadSheet formats sheetPath
    let (chart, count) ← applySheet sheet chart
    if count = 0 then Action.tell .nothingToInsert
    else
      Store.saveChart input chart (s.backup && backup)
      Action.tell (.insertedTexts count input)

/-- Reads settings from a file. -/
def loadSettings (formats : Formats) (path : String) : Tool Settings := do
  let text ← Action.during (.readingSettings path) (Action.look (·.readText path))
  match formats.settings? text with
  | some settings => return settings
  | none => throw (.during (.parsingSettings path) .badSettings)

/-- The settings of a request: those of its file, or the defaults. -/
def settings (formats : Formats) (r : Request) : Tool Settings := do
  let s ← match r.settings with
    | some path => loadSettings formats path
    | none => pure {}
  return { s with encoding := r.encoding.getD s.encoding }

/-- Does what a request asks for, in the formats of the tool if no others are given. -/
def request (r : Request) (formats : Formats := .flow) : Tool Unit := do
  let s ← settings formats r
  job formats s r.job

end NovelChart.Run
