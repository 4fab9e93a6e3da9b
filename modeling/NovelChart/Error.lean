import NovelChart.Bytes.Fault

/-!
Everything that can go wrong with charts, commands, text blocks and scripts. Each error is a cause
with the data that its message names; the wording stands in one place, `Error.message`.
-/

namespace NovelChart

/-- What kind of file operation failure the system reports. -/
inductive IoFault
  | notFound
  | isADirectory
  | notADirectory
  | alreadyExists
  | invalidData
  | invalidInput
  | invalidFilename
  | other
  deriving DecidableEq, Repr

/-- The name of a file operation failure. -/
def IoFault.name : IoFault → String
  | notFound => "NotFound"
  | isADirectory => "IsADirectory"
  | notADirectory => "NotADirectory"
  | alreadyExists => "AlreadyExists"
  | invalidData => "InvalidData"
  | invalidInput => "InvalidInput"
  | invalidFilename => "InvalidFilename"
  | other => "Other"

/-- How a command and its schema disagree. -/
inductive SchemaFault
  | noSchema
  | raw
  | typedWithoutSchema
  | parameterCount (expected found : Nat)
  | valueCount (expected found : Nat)
  | groupSize (group found expected : Nat)
  | noTail
  | missingText
  | extraText
  deriving DecidableEq, Repr

/-- The wording of a schema fault. -/
def SchemaFault.message : SchemaFault → String
  | noSchema => "opcode has no parameter schema"
  | raw => "command is opaque"
  | typedWithoutSchema => "typed body on an opcode without schema"
  | parameterCount expected found =>
    "expected " ++ toString expected ++ " parameters, found " ++ toString found
  | valueCount expected found =>
    "expected " ++ toString expected ++ " values, found " ++ toString found
  | groupSize group found expected =>
    "tail group " ++ toString group ++ " has " ++ toString found ++ " values, expected " ++
      toString expected
  | noTail => "opcode has no variable tail"
  | missingText => "missing text block"
  | extraText => "opcode does not carry a text block"

/-- Why an attribute does not belong to its tag. -/
inductive AttrFault
  | unknown (key : String)
  | duplicate (key : String)
  | notInteger (key value : String)
  | notKeyword (key value : String) (words : List String)
  deriving DecidableEq, Repr

/-- The wording of an attribute fault. -/
def AttrFault.message : AttrFault → String
  | unknown key => "unknown attribute " ++ key
  | duplicate key => "duplicate attribute " ++ key
  | notInteger key value => key ++ "=" ++ Text.quoted value ++ " is not an integer"
  | notKeyword key value words =>
    key ++ "=" ++ Text.quoted value ++ " is not one of " ++ Text.quotedList words

/-- Why a tag, or a whole block, cannot be written in binary form. -/
inductive TagFault
  | blockVersion (version : Nat)
  | unsupported
  | missingContent
  | extraContent
  | attr (fault : AttrFault)
  | noAttributes
  | tooDeep
  deriving DecidableEq, Repr

/-- The wording of a tag fault. -/
def TagFault.message : TagFault → String
  | blockVersion version => "block version " ++ toString version ++ " does not fit three digits"
  | unsupported => "unsupported tag"
  | missingContent => "paired tag without content"
  | extraContent => "tag does not take content"
  | attr fault => fault.message
  | noAttributes => "tag takes no attributes"
  | tooDeep => "paired tags nested too deeply"

/-- What is wrong with a script. -/
inductive ScriptFault
  | unknownEscape (c : Char)
  | danglingEscape
  | unterminatedTag
  | malformedClose (body : String)
  | malformedTag (body : String)
  | expectedAttribute
  | unknownValueEscape (c : Char)
  | unterminatedValue
  | missingValue
  | noAttributes
  | unsupported
  | attr (fault : AttrFault)
  | tooDeep
  | wrongClose (opened : String)
  | strayClose
  | neverClosed
  deriving DecidableEq, Repr

/-- The wording of a script fault. -/
def ScriptFault.message : ScriptFault → String
  | unknownEscape c => "unknown escape \\" ++ String.singleton c
  | danglingEscape => "dangling escape at end of input"
  | unterminatedTag => "unterminated tag"
  | malformedClose body => "malformed closing tag </" ++ body
  | malformedTag body => "malformed tag <" ++ body ++ ">"
  | expectedAttribute => "expected NAME=value attribute"
  | unknownValueEscape c => "unknown escape \\" ++ String.singleton c ++ " in quoted value"
  | unterminatedValue => "unterminated quoted value"
  | missingValue => "missing attribute value"
  | noAttributes => "tag takes no attributes"
  | unsupported => "unsupported tag"
  | attr fault => fault.message
  | tooDeep => "paired tags nested too deeply"
  | wrongClose opened => "closing tag does not match open <" ++ opened ++ ">"
  | strayClose => "closing tag without an open tag"
  | neverClosed => "tag is never closed"

/-- A script fault with the line, and the tag if one is known, where it was found. -/
structure ScriptError where
  line : Nat
  tag : Option String
  fault : ScriptFault
  deriving DecidableEq, Repr

/-- The wording of a script error. -/
def ScriptError.message (e : ScriptError) : String :=
  "LNS syntax error on line " ++ toString e.line ++
    (match e.tag with
    | some tag => " in <" ++ tag ++ ">"
    | none => "") ++ ": " ++ e.fault.message

/-- Everything that an operation on charts can fail with. -/
inductive Error
  | format (e : FormatError)
  | typeMismatch (field : String) (expected : Kind) (found : String)
  | schema (opcode : Opcode) (fault : SchemaFault)
  | script (e : ScriptError)
  | tag (name : String) (fault : TagFault)
  | text (fault : TextFault)
  | labelOutOfRange (name : String) (target length : Nat)
  | noSuchLine (line : Nat)
  | notTextCommand (line : Nat) (opcode : Opcode)
  | notMenuCommand (line : Nat) (opcode : Opcode)
  | noSuchField (opcode : Opcode) (field : String)
  | noSuchSegment (line index : Nat)
  | badIdentifier (id : String)
  | writeBack (entry : String) (cause : IoFault)
  deriving DecidableEq, Repr

/-- The wording of an error. -/
def Error.message : Error → String
  | format e => e.message
  | typeMismatch field expected found =>
    "type mismatch for " ++ field ++ ": expected " ++ expected.name ++ ", found " ++ found
  | schema opcode fault => opcode.name ++ ": " ++ fault.message
  | script e => e.message
  | tag name fault => "tag <" ++ name ++ ">: " ++ fault.message
  | text fault => fault.message
  | labelOutOfRange name target length =>
    "label " ++ Text.quoted name ++ " targets command " ++ toString target ++
      " past the end of the chart (" ++ toString length ++ " commands)"
  | noSuchLine line => "no command at line " ++ toString line
  | notTextCommand line opcode =>
    "command at line " ++ toString line ++ " (" ++ opcode.name ++ ") does not carry a text block"
  | notMenuCommand line opcode =>
    "command at line " ++ toString line ++ " (" ++ opcode.name ++ ") is not a choice menu"
  | noSuchField opcode field => opcode.name ++ " has no field " ++ Text.quoted field
  | noSuchSegment line index =>
    "text segment " ++ toString index ++ " does not exist at line " ++ toString line
  | badIdentifier id => "bad text identifier: " ++ id
  | writeBack entry _ => "could not write back " ++ entry

/-- A text encoded for a chart, with a text fault as an error. -/
def Encoding.write (e : Encoding) (s : String) : Except Error (List UInt8) :=
  (e.encode s).mapError .text

end NovelChart
