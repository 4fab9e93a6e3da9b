import NovelChart.Text.Numeral
import NovelChart.Tool.Request

/-!
The words of the command line: the jobs that it names, the switches of each job, and the values that
stand in places.
-/

namespace NovelChart

/-- Why a command line asks for no job. -/
inductive UsageFault
  /-- A switch or a further value that is not known where it stands. -/
  | unknownArgument
  /-- A word where a job has to stand, and that names none. -/
  | unknownJob
  /-- A job without one of its values. -/
  | missingArgument
  /-- A switch without its value, or a path that is empty. -/
  | missingValue
  /-- A value that cannot be read. -/
  | badValue
  /-- A value for a switch that takes none. -/
  | unwantedValue
  /-- A switch that is given twice. -/
  | repeatedSwitch
  /-- Switches without a job. -/
  | missingJob
  /-- No words at all. -/
  | nothingAsked
  /-- A question for help. -/
  | helpAsked
  /-- A question for the version. -/
  | versionAsked
  deriving DecidableEq, Repr

/-- The form of a value. -/
inductive ArgumentForm
  | path
  | encoding
  | position
  deriving DecidableEq, Repr

/-- A value of the command line. -/
inductive Argument
  | path (name : String)
  | encoding (e : Encoding)
  | position (n : Nat)
  deriving DecidableEq, Repr

/-- Reads a value. Every path but the empty one is good. -/
def ArgumentForm.read : ArgumentForm → String → Except UsageFault Argument
  | path, text => if text.isEmpty then .error .missingValue else .ok (.path text)
  | encoding, text =>
    match Encoding.ofName? text with
    | some e => .ok (.encoding e)
    | none => .error .badValue
  | position, text =>
    match Text.readPosition text.toList with
    | .ok n => .ok (.position n)
    | .error _ => .error .badValue

/-- The switches of the command line. -/
inductive Switch
  | help
  | version
  | settings
  | encoding
  | output
  | outputDir
  | textOnly
  | scriptEncoding
  | noBackup
  | ignoreMissing
  deriving DecidableEq, Repr

namespace Switch

/-- The name of a switch, which stands behind two dashes. -/
def name : Switch → String
  | help => "help"
  | version => "version"
  | settings => "config"
  | encoding => "encoding"
  | output => "output"
  | outputDir => "output-dir"
  | textOnly => "text-only"
  | scriptEncoding => "script-encoding"
  | noBackup => "no-backup"
  | ignoreMissing => "ignore-missing"

/-- The letter of a switch, which stands behind one dash. -/
def letter? : Switch → Option Char
  | help => some 'h'
  | version => some 'V'
  | settings => some 'c'
  | encoding => some 'e'
  | output | outputDir => some 'o'
  | textOnly | scriptEncoding | noBackup | ignoreMissing => none

/-- The form of the value that a switch takes, if it takes one. -/
def form? : Switch → Option ArgumentForm
  | settings | output | outputDir => some .path
  | encoding | scriptEncoding => some .encoding
  | help | version | textOnly | noBackup | ignoreMissing => none

end Switch

/-- What may follow a word of the command line. -/
structure Usage where
  switches : List Switch
  /-- The forms of the values that stand in places, in order. -/
  places : List ArgumentForm
  /-- Whether the last place takes any number of values. -/
  repeats : Bool := false
  deriving Repr

namespace Usage

/-- The switch of a name. -/
def ofName? (u : Usage) (name : String) : Option Switch :=
  u.switches.find? (·.name == name)

/-- The switch of a letter. -/
def ofLetter? (u : Usage) (c : Char) : Option Switch :=
  u.switches.find? (·.letter? == some c)

/-- The place that a value takes after so many others. -/
def placeAt (u : Usage) (count : Nat) : Nat :=
  if u.repeats then min count (u.places.length - 1) else count

/-- What stands in front of the name of a job. -/
def front : Usage := ⟨[.help, .version, .settings, .encoding], [], false⟩

end Usage

/-- The names of the jobs. -/
inductive JobName
  | info
  | validate
  | dump
  | extract
  | insert
  | batchInsert
  | extractSheet
  | insertSheet
  deriving DecidableEq, Repr

namespace JobName

/-- Every job. -/
def all : List JobName :=
  [info, validate, dump, extract, insert, batchInsert, extractSheet, insertSheet]

/-- The word that names a job. -/
def word : JobName → String
  | info => "info"
  | validate => "validate"
  | dump => "dump"
  | extract => "extract"
  | insert => "insert"
  | batchInsert => "batch-insert"
  | extractSheet => "extract-sheet"
  | insertSheet => "insert-sheet"

/-- The job that a word names. -/
def ofWord? (s : String) : Option JobName :=
  all.find? (·.word == s)

/-- The switches that only this job takes. -/
def ownSwitches : JobName → List Switch
  | info | validate => []
  | dump => [.output, .textOnly]
  | extract => [.outputDir, .scriptEncoding]
  | insert => [.scriptEncoding, .noBackup]
  | batchInsert => [.scriptEncoding, .noBackup, .ignoreMissing]
  | extractSheet => [.output]
  | insertSheet => [.noBackup]

/-- The forms of the values that stand behind the name of a job. -/
def places : JobName → List ArgumentForm
  | info | validate | dump | extract | extractSheet => [.path]
  | insert => [.path, .path, .position]
  | batchInsert | insertSheet => [.path, .path]

/-- What may follow the name of a job. -/
def usage (j : JobName) : Usage where
  switches := [.help, .settings, .encoding] ++ j.ownSwitches
  places := j.places
  repeats := j = validate || j = extract

end JobName

end NovelChart
