import NovelChart.Tool.Formats
import NovelChart.Tool.World

/-!
Charts, scripts and documents in files. A chart that is written back is copied first, unless it
has a copy already: the copy holds the bytes from before the first change and is never
overwritten.
-/

namespace NovelChart.Store

/-- Reads a chart, telling what is worth telling of it. -/
def loadChart (path : String) (e : Encoding) : Tool Chart := do
  let bytes ← Action.during (.reading path) (Action.look (·.read path))
  Action.tellAll (Chart.readingNotices e bytes)
  match Chart.ofBytes e bytes with
  | .ok chart => return chart
  | .error fault => throw (.during (.decoding path) (.chart (.format fault)))

/-- The path of the copy of a file. -/
def copyPath (path : String) : String :=
  path ++ ".bak"

/-- Copies a file that exists and has no copy yet. -/
def backUp (path : String) : Action IoFault Unit := do
  let files := (← get).files
  if files.contains path && !files.contains (copyPath path) then
    let bytes ← Action.look (·.read path)
    Action.change (·.write (copyPath path) bytes)
    Action.tell (.backedUp path (copyPath path))

/-- Writes an entry of a directory. -/
def writeBack (root : String) (backup : Bool) (entry : String) (bytes : List UInt8) :
    Action IoFault Unit := do
  let path := Path.join root entry
  if backup then backUp path
  match Path.parent? path with
  | some parent => Action.change (·.makeDirectory parent)
  | none => pure ()
  Action.change (·.write path bytes)

/-- The name of the file that a path names. -/
def entryName (path : String) : Tool String :=
  match Path.fileName? path with
  | some name => return name
  | none => throw (.of (.namelessPath path))

/-- The name of the file that a path names, without its extension. -/
def entryStem (path : String) : Tool String :=
  match Path.stem? path with
  | some stem => return stem
  | none => throw (.of (.namelessPath path))

/-- Writes a chart over the file that it was read from. -/
def saveChart (path : String) (chart : Chart) (backup : Bool) : Tool Unit := do
  let entry ← entryName path
  let bytes ← Action.orFail (.of ∘ .chart) chart.toBytes
  (writeBack ((Path.parent? path).getD ".") backup entry bytes).adapt
    fun fault => .of (.chart (.writeBack entry fault))

/-- Reads text in an encoding. -/
def readText (path : String) (e : Encoding) : Tool String := do
  let bytes ← Action.during (.reading path) (Action.look (·.read path))
  match e.decode bytes with
  | .ok text => return text
  | .error fault => throw (.during (.decodingText path e) (.chart (.text fault)))

/-- Writes text in an encoding. -/
def writeText (path : String) (text : String) (e : Encoding) : Tool Unit := do
  match e.encode text with
  | .ok bytes => Action.during (.writing path) (Action.change (·.write path bytes))
  | .error fault => throw (.during (.encodingText path e) (.chart (.text fault)))

/-- Writes a document, making the directories that lead to it. -/
def writeDocument (formats : Formats) (path : String) (d : Document) : Tool Unit := do
  match Path.parent? path with
  | some parent => Action.plainly (Action.change (·.makeDirectory parent))
  | none => pure ()
  Action.during (.creating path) (Action.change (·.write path (formats.print d).toUTF8.toList))

end NovelChart.Store
