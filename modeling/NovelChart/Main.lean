import NovelChart.Tool.Arguments
import NovelChart.Tool.Run

/-!
The command line tool. The files below the working directory are read into a tree, the job is done
on the tree, and what changed is written back.
-/

namespace NovelChart

/-- What a user reads about a command line that asks for no job. -/
def UsageFault.message : UsageFault → String
  | unknownArgument => "unexpected argument"
  | unknownJob => "unrecognized subcommand"
  | missingArgument => "a required argument was not provided"
  | missingValue => "a value is required"
  | badValue => "invalid value"
  | unwantedValue => "unexpected value"
  | repeatedSwitch => "an argument cannot be used multiple times"
  | missingJob => "a subcommand is required"
  | nothingAsked | helpAsked =>
    "subcommands: " ++ String.intercalate ", " (JobName.all.map JobName.word)
  | versionAsked => "novelchart"

/-- The exit code for a command line that asks for no job. -/
def UsageFault.exitCode : UsageFault → UInt32
  | helpAsked | versionAsked => 0
  | _ => 2

/-- The files below the working directory. -/
def FileTree.load : IO FileTree := do
  let root ← IO.currentDir
  let mut files := []
  for path in ← root.walkDir do
    if !(← path.isDir) then
      let names := path.components.drop root.components.length
      files := (String.intercalate "/" names, (← IO.FS.readBinFile path).toList) :: files
  return .ofFiles files.reverse

/-- Writes the files that changed. -/
def FileTree.save (before after : FileTree) : IO Unit := do
  for (path, bytes) in before.changes after do
    match Path.parent? path with
    | some parent => if !parent.isEmpty then IO.FS.createDirAll parent
    | none => pure ()
    IO.FS.writeBinFile path ⟨bytes.toArray⟩

/-- The line that tells a notice. -/
def Notice.line (n : Notice) : String :=
  match n.level with
  | .warning => "WARN " ++ n.text
  | .information => "INFO " ++ n.text

/-- Does a request on the files below the working directory. -/
def Request.perform (r : Request) : IO UInt32 := do
  let files ← FileTree.load
  let (result, w) := (Run.request r .flow).run.run { files := files }
  files.save w.files
  IO.print w.output
  for n in w.notices do IO.eprintln n.line
  match result with
  | .ok _ => return 0
  | .error failure =>
    IO.eprintln ("ERROR " ++ failure.message)
    return 1

end NovelChart

/-- Reads the command line and does what it asks for. -/
def main (words : List String) : IO UInt32 := do
  match NovelChart.Request.ofWords words with
  | .ok r => r.perform
  | .error fault =>
    IO.eprintln fault.message
    return fault.exitCode
