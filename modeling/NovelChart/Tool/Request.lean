import NovelChart.Encoding.Basic

/-!
What a user asks of the tool.
-/

namespace NovelChart

/-- One of the tool's jobs. -/
inductive Job
  /-- Print a summary of a chart. -/
  | info (input : String)
  /-- Certify charts. -/
  | validate (inputs : List String)
  /-- Write a listing of a chart. -/
  | dump (input output : String) (textOnly : Bool)
  /-- Write the scripts of charts. -/
  | extract (inputs : List String) (outputDir : Option String) (scripts : Encoding)
  /-- Compile a script into a chart. -/
  | insert (input script : String) (line : Nat) (scripts : Encoding) (backup : Bool)
  /-- Compile the scripts of an index into a chart. -/
  | batchInsert (input dir : String) (scripts : Encoding) (backup ignoreMissing : Bool)
  /-- Write the sheet of a chart. -/
  | extractSheet (input output : String)
  /-- Apply a sheet to a chart. -/
  | insertSheet (input sheet : String) (backup : Bool)
  deriving DecidableEq, Repr

/-- A job with the settings that the command line gives. -/
structure Request where
  /-- The file with further settings. -/
  settings : Option String := none
  /-- The encoding of charts, which wins over the settings file. -/
  encoding : Option Encoding := none
  job : Job
  deriving DecidableEq, Repr

end NovelChart
