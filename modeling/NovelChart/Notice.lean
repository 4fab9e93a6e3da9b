import NovelChart.Chart.Codec

/-!
What is worth telling while charts are read and files are written. A notice is a fact with the data
that its text names.
-/

namespace NovelChart

/-- How much attention a notice asks for. -/
inductive Level
  | warning
  | information
  deriving DecidableEq, Repr

/-- Something worth telling. -/
inductive Notice
  | scrambled (params : ScrambleParams)
  | rawCommands (raw total : Nat)
  | staleText (id : String)
  | staleChoice (line index : Nat)
  | missingScript (path : String)
  | roundTrip (blocks : Nat)
  | roundTripFailed (divergences blocks : Nat)
  | wrote (path : String)
  | wroteSheet (texts choices : Nat) (path : String)
  | extracted (scripts : Nat) (path : String)
  | replacedScenario (line : Nat) (file : String)
  | insertedScript (script : String) (line : Nat) (path : String)
  | insertedScripts (scripts : Nat) (path : String)
  | insertedTexts (texts : Nat) (path : String)
  | nothingToInsert
  | backedUp (path copy : String)
  deriving DecidableEq, Repr

namespace Notice

/-- The level of a notice. -/
def level : Notice → Level
  | scrambled _ | rawCommands _ _ | staleText _ | staleChoice _ _ | missingScript _ => .warning
  | _ => .information

/-- The wording of a notice. -/
def text : Notice → String
  | scrambled params =>
    "chart is scrambled (chunk size " ++ Text.int32 params.chunkSize ++ ", seed " ++
      Text.hex 8 params.seed.toNat ++ ")"
  | rawCommands raw total =>
    toString raw ++ " of " ++ toString total ++ " commands have no schema and are kept opaque"
  | staleText id => id ++ ": original text changed, skipping"
  | staleChoice line index =>
    "menu " ++ toString line ++ ":" ++ toString index ++ ": original text changed, skipping"
  | missingScript path => "script " ++ path ++ " is missing, skipped"
  | roundTrip blocks => "round trip ok (" ++ toString blocks ++ " text blocks)"
  | roundTripFailed divergences blocks =>
    "round trip failed: " ++ toString divergences ++ " divergences, " ++ toString blocks ++
      " bad text blocks"
  | wrote path => "wrote " ++ path
  | wroteSheet texts choices path =>
    "wrote " ++ toString texts ++ " text segments and " ++ toString choices ++
      " menu choices to " ++ path
  | extracted scripts path => "extracted " ++ toString scripts ++ " scripts from " ++ path
  | replacedScenario line file => "replaced scenario at line " ++ toString line ++ " with " ++ file
  | insertedScript script line path =>
    "inserted " ++ script ++ " at line " ++ toString line ++ " of " ++ path
  | insertedScripts scripts path => "inserted " ++ toString scripts ++ " scripts into " ++ path
  | insertedTexts texts path => "inserted " ++ toString texts ++ " translations into " ++ path
  | nothingToInsert => "nothing to insert"
  | backedUp path copy => "backed up " ++ path ++ " to " ++ copy

end Notice

/-- What is worth telling of a header. -/
def Header.notices (h : Header) : List Notice :=
  h.scramble.toList.map .scrambled

namespace Chart

/-- The number of commands with uninterpreted bodies. -/
def rawCount (c : Chart) : Nat :=
  c.commands.countP Command.isRaw

/-- What is worth telling of bytes that are read as a chart: that their body is shuffled, also if
reading fails later on, and that some of the commands could not be interpreted. -/
def readingNotices (e : Encoding) (bytes : List UInt8) : List Notice :=
  -- The header is told of as soon as it is read.
  let ofHeader := match Header.decode (Cursor.ofBytes bytes) with
    | .ok (header, _) => header.notices
    | .error _ => []
  ofHeader ++
    match ofBytes e bytes with
    | .ok chart => if chart.rawCount = 0 then [] else [.rawCommands chart.rawCount chart.length]
    | .error _ => []

end Chart

end NovelChart
