import NovelChart.Chart.Text
import NovelChart.Script.Print
import NovelChart.Tool.Reference
import NovelChart.Tool.Store

/-!
Scripts of a chart as files. Extracting writes one file per text block and an index of them;
inserting compiles a file into a text block, and a batch does so for every entry of an index.
-/

namespace NovelChart.Scripts

/-- The file of a scenario that is known by its line only. -/
def lineFile (stem : String) (line : Nat) : String :=
  stem ++ "-line" ++ toString line ++ ".lns"

/-- The file of a scenario. A scenario without a name, or with one whose file is taken, goes by its
line. -/
def scenarioFile (stem : String) (taken : List Reference) (s : Scenario) : String :=
  match s.name with
  | some name =>
    let file := stem ++ "-" ++ Reference.escapeName name ++ ".lns"
    if name.isEmpty || taken.any (·.file == file) then lineFile stem s.line else file
  | none => lineFile stem s.line

/-- The references of scenarios, behind those that are taken already. -/
def referencesFrom (stem : String) : List Reference → List Scenario → List Reference
  | taken, [] => taken
  | taken, s :: rest =>
    referencesFrom stem (taken ++ [⟨scenarioFile stem taken s, s.line⟩]) rest

/-- The references of a chart's scenarios. -/
def references (stem : String) (chart : Chart) : List Reference :=
  referencesFrom stem [] chart.scenarios

/-- Writes the scripts of scenarios to the files of their references. -/
def writeScripts (dir : String) (textOnly : Bool) (e : Encoding) :
    List (Scenario × Reference) → Tool Unit
  | [] => pure ()
  | (s, r) :: rest => do
    let path := Path.join dir r.file
    Store.writeText path (Script.print textOnly s.block.tokens) e
    Action.tell (.wrote path)
    writeScripts dir textOnly e rest

/-- Writes the scripts of a chart and their index into a directory. -/
def extract (chart : Chart) (stem dir : String) (textOnly : Bool) (e : Encoding) :
    Tool (List Reference) := do
  Action.during (.creating dir) (Action.change (·.makeDirectory dir))
  let refs := references stem chart
  writeScripts dir textOnly e (chart.scenarios.zip refs)
  Store.writeText (Reference.indexPath dir stem) (Reference.indexText refs) e
  return refs

/-- Compiles a script file into the text block at a line. -/
def insert (chart : Chart) (line : Nat) (path : String) (e : Encoding) (keepComments : Bool) :
    Tool Chart := do
  let script ← Store.readText path e
  Action.orFail (.during (.insertingScript path line) ∘ .chart)
    (chart.replaceBlockScript line keepComments script)

/-- Inserts the scripts of index entries one after another, and counts them. -/
def insertEntries (dir : String) (e : Encoding) (keepComments ignoreMissing : Bool) :
    List String → Chart → Nat → Tool (Chart × Nat)
  | [], chart, count => return (chart, count)
  | entry :: rest, chart, count => do
    match Reference.ofText entry with
    | .error f => throw f
    | .ok r =>
      let path := Path.join dir r.file
      if (← get).files.contains path then
        let chart ← insert chart r.line path e keepComments
        Action.tell (.replacedScenario r.line r.file)
        insertEntries dir e keepComments ignoreMissing rest chart (count + 1)
      else if ignoreMissing then
        Action.tell (.missingScript path)
        insertEntries dir e keepComments ignoreMissing rest chart count
      else throw (.of (.missingScript path))

/-- Inserts every script that the index of a chart lists. -/
def insertAll (chart : Chart) (stem dir : String) (e : Encoding)
    (keepComments ignoreMissing : Bool) : Tool (Chart × Nat) := do
  let index ← Store.readText (Reference.indexPath dir stem) e
  insertEntries dir e keepComments ignoreMissing (Reference.indexEntries index) chart 0

end NovelChart.Scripts
