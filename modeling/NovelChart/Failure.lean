import NovelChart.Error

/-!
Failures of the tool: what went wrong and, where that helps, what the tool was doing. The message
gives the activity first and then the cause. A failure of the file system or of a document's
grammar is shown by its kind.
-/

namespace NovelChart

/-- What the tool was doing. -/
inductive Activity
  | readingSettings (path : String)
  | parsingSettings (path : String)
  | reading (path : String)
  | decoding (path : String)
  | decodingText (path : String) (encoding : Encoding)
  | encodingText (path : String) (encoding : Encoding)
  | creating (path : String)
  | writing (path : String)
  | readingReference (text : String)
  | insertingScript (path : String) (line : Nat)
  | insertingTexts (chart : String)
  | insertingChoice (line index : Nat)
  deriving DecidableEq, Repr

/-- The wording of an activity that failed. -/
def Activity.message : Activity → String
  | readingSettings path => "failed to read config " ++ path
  | parsingSettings path => "failed to parse config " ++ path
  | reading path => "failed to read " ++ path
  | decoding path => "failed to decode " ++ path
  | decodingText path encoding => path ++ " is not valid " ++ encoding.name
  | encodingText path encoding => "cannot write " ++ path ++ " as " ++ encoding.name
  | creating path => "failed to create " ++ path
  | writing path => "failed to write " ++ path
  | readingReference text => "bad line number in script reference " ++ Text.quoted text
  | insertingScript path line => "failed to insert " ++ path ++ " at line " ++ toString line
  | insertingTexts chart => "failed to insert translations into " ++ chart
  | insertingChoice line index =>
    "failed to insert menu choice " ++ toString line ++ ":" ++ toString index

/-- What went wrong. -/
inductive Cause
  | chart (e : Error)
  | io (fault : IoFault)
  | numeral (fault : Text.NumeralFault)
  | badSheet
  | badSettings
  | badReference (text : String)
  | namelessReference (text : String)
  | missingScript (path : String)
  | foreignText (id chart : String)
  | namelessPath (path : String)
  | failedValidation (failed total : Nat)
  deriving DecidableEq, Repr

/-- The wording of a file operation failure. -/
def IoFault.message (fault : IoFault) : String :=
  "<io:" ++ fault.name ++ ">"

/-- The wording of a cause. -/
def Cause.message : Cause → String
  | chart e =>
    match e with
    | .writeBack _ fault => e.message ++ ": " ++ fault.message
    | e => e.message
  | io fault => fault.message
  | numeral fault => fault.message
  | badSheet => "<yaml>"
  | badSettings => "<toml>"
  | badReference text => "bad script reference " ++ Text.quoted text
  | namelessReference text => "script reference " ++ Text.quoted text ++ " has no file name"
  | missingScript path => "script " ++ path ++ " is missing"
  | foreignText id name => id ++ " does not belong to chart " ++ name
  | namelessPath path => path ++ " has no file name"
  | failedValidation failed total =>
    toString failed ++ " of " ++ toString total ++ " charts failed validation"

/-- A failure of the tool. -/
structure Failure where
  activity : Option Activity := none
  cause : Cause
  deriving DecidableEq, Repr

namespace Failure

/-- The wording of a failure. -/
def message (f : Failure) : String :=
  match f.activity with
  | some activity => activity.message ++ ": " ++ f.cause.message
  | none => f.cause.message

/-- A failure without an activity. -/
def of (cause : Cause) : Failure :=
  { cause }

/-- A failure during an activity. -/
def during (activity : Activity) (cause : Cause) : Failure :=
  { activity := some activity, cause }

end Failure

end NovelChart
