import NovelChart.Encoding.Basic
import NovelChart.Opcode
import NovelChart.Text.Quoted

/-!
Faults of binary data. A fault says what is wrong with a chart; a format error adds the offset in
the plain image where it was found and the opcode of the record being read, if there was one.
-/

namespace NovelChart

/-- What is wrong with a binary text block. -/
inductive BlockFault
  | missingSignature
  | badVersion
  | tooDeep
  | notOneCharacter
  | unknownTagCode (code : UInt8)
  | maskTooWide (mask : UInt8) (tag : String)
  | wordOutOfRange (attr : String) (index : Nat)
  | unknownBreak (kind : UInt8)
  | unknownToken (type : UInt8)
  deriving DecidableEq, Repr

/-- The wording of a block fault. -/
def BlockFault.message : BlockFault → String
  | missingSignature => "missing TpWord signature"
  | badVersion => "bad TpWord version"
  | tooDeep => "paired tags nested too deeply"
  | notOneCharacter => "char token must hold exactly one character"
  | unknownTagCode code => "unknown tag code " ++ Text.hex 2 code.toNat
  | maskTooWide mask tag => "attribute mask " ++ Text.hex 2 mask.toNat ++ " too wide for " ++ tag
  | wordOutOfRange attr index => attr ++ " index " ++ toString index ++ " out of range"
  | unknownBreak kind => "unknown break kind " ++ toString kind.toNat
  | unknownToken type => "unknown token type " ++ Text.hex 2 type.toNat

/-- What is wrong with a chart's bytes. -/
inductive FormatFault
  | truncated
  | stringOverrun (length remaining : Nat)
  | badString (fault : TextFault)
  | badFlag (byte : UInt8)
  | badTailCount (count : Int) (remaining : Nat)
  | trailingBytes (count : Nat)
  | streamSize (declared actual : Nat)
  | unsupportedVersion (version : UInt32)
  | badLabel (name : String) (target count : Nat)
  | badTextBlock (fault : BlockFault)
  | badScramble (chunkSize : Int32)
  deriving DecidableEq, Repr

/-- The wording of a format fault. -/
def FormatFault.message : FormatFault → String
  | truncated => "unexpected end of data"
  | stringOverrun length remaining =>
    "string length " ++ toString length ++ " exceeds the " ++ toString remaining ++
      " remaining bytes"
  | badString fault => "undecodable string: " ++ fault.message
  | badFlag byte => "flag byte " ++ Text.hex 2 byte.toNat ++ " is neither 0 nor 1"
  | badTailCount count remaining =>
    "variable tail count " ++ toString count ++ " does not fit the remaining " ++
      toString remaining ++ " bytes"
  | trailingBytes count => toString count ++ " unconsumed trailing bytes"
  | streamSize declared actual =>
    "command stream is " ++ toString actual ++ " bytes but the header declares " ++
      toString declared
  | unsupportedVersion version => "unsupported LSB version " ++ toString version.toNat
  | badLabel name target count =>
    "label " ++ Text.quoted name ++ " targets command " ++ toString target ++
      " but the chart has " ++ toString count ++ " commands"
  | badTextBlock fault => "bad text block: " ++ fault.message
  | badScramble chunkSize =>
    "bad scramble parameters: chunk size " ++ Text.int32 chunkSize ++ " is not positive"

/-- A fault with the place where it was found. -/
structure FormatError where
  opcode : Option Opcode
  offset : Nat
  fault : FormatFault
  deriving DecidableEq, Repr

/-- The wording of a format error. -/
def FormatError.message (e : FormatError) : String :=
  e.fault.message ++ " at offset " ++ Text.hex 1 e.offset ++
    match e.opcode with
    | some opcode => " while decoding " ++ opcode.name
    | none => ""

end NovelChart
