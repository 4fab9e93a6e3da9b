import NovelChart.Text.Case
import NovelChart.Text.Numeral
import NovelChart.Value.Kind

/-!
Opcodes and parameter schemas. The catalogue lists the sixty-four known opcodes by code; a schema
gives the fixed fields of an opcode, the fields of each group of its variable tail, and whether a
text block follows. A command whose opcode has no schema keeps its parameters as raw bytes.
-/

namespace NovelChart

/-- A named parameter slot. -/
structure Field where
  name : String
  kind : Kind
  deriving DecidableEq, Repr, Inhabited

/-- The parameter layout of an opcode. -/
structure Schema where
  /-- The fixed parameters, in stream order. -/
  fields : List Field
  /-- The slots of one group of the variable tail, if the opcode has a tail. -/
  tail : Option (List Field)
  /-- Whether a text block follows the parameters. -/
  carriesText : Bool
  deriving DecidableEq, Repr

/-- The place of a field with this name, in any letter case. -/
def Field.find? (fields : List Field) (name : String) : Option Nat :=
  fields.findIdx? fun f => Text.sameLetters f.name name

/-- The fewest bytes that the fields take together. -/
def Field.minSizes (fields : List Field) : Nat :=
  fields.foldr (fun f n => f.kind.minSize + n) 0

/-- The place of a fixed field. -/
def Schema.fieldIndex? (s : Schema) (name : String) : Option Nat :=
  Field.find? s.fields name

/-- The place of a field in a tail group. -/
def Schema.tailIndex? (s : Schema) (name : String) : Option Nat :=
  s.tail.bind fun fields => Field.find? fields name

/-- The operation code of a command. -/
structure Opcode where
  code : UInt8
  deriving DecidableEq, Repr, Inhabited

namespace Opcode

/-- What is known of an opcode. -/
structure Entry where
  name : String
  schema : Option Schema
  deriving DecidableEq, Repr

/-- An opcode whose parameters are not described. -/
def bare (name : String) : Entry :=
  ⟨name, none⟩

/-- An opcode with fixed parameters only. -/
def fixed (name : String) (fields : List Field) : Entry :=
  ⟨name, some ⟨fields, none, false⟩⟩

/-- The known opcodes; the code of an opcode is its place. -/
def catalogue : List Entry := [
  fixed "If" [⟨"Calc", .str⟩], fixed "Elseif" [⟨"Calc", .str⟩], fixed "Else" [],
  fixed "Label" [⟨"Name", .str⟩], fixed "Jump" [⟨"Page", .str⟩, ⟨"Label", .int⟩, ⟨"Calc", .str⟩],
  fixed "Call" [⟨"Page", .str⟩, ⟨"Label", .int⟩, ⟨"Result", .str⟩, ⟨"Calc", .str⟩,
    ⟨"Params", .array .str⟩],
  fixed "Exit" [⟨"Calc", .str⟩],
  fixed "Wait" [⟨"Calc", .str⟩, ⟨"Time", .int⟩, ⟨"StopEvent", .flag⟩], bare "BoxNew",
  bare "ImgNew", bare "MesNew", bare "Timer", bare "Movie", bare "Flip",
  fixed "Calc" [⟨"Calc", .str⟩],
  fixed "VarNew" [⟨"Name", .str⟩, ⟨"Type", .int⟩, ⟨"InitVal", .str⟩, ⟨"Scope", .int⟩],
  fixed "VarDel" [⟨"Name", .str⟩], bare "GetProp", bare "SetProp", bare "ObjDel",
  ⟨"TextIns", some ⟨[⟨"Target", .str⟩, ⟨"Hist", .flag⟩, ⟨"Wait", .flag⟩, ⟨"StopEvent", .flag⟩],
    none, true⟩⟩,
  bare "MovieStop", fixed "ClrHist" [], bare "Cinema", fixed "Caption" [⟨"Caption", .str⟩],
  ⟨"Menu", some ⟨[⟨"Target", .str⟩, ⟨"Cancel", .flag⟩], some [⟨"Text", .str⟩, ⟨"Jump", .int⟩],
    false⟩⟩,
  fixed "MenuClose" [], fixed "Comment" [⟨"Text", .str⟩], fixed "TextClr" [⟨"Target", .str⟩],
  bare "CallHist", bare "Button", bare "While", bare "WhileInit", bare "WhileLoop", bare "Break",
  bare "Continue", bare "ParticleNew", bare "FireNew", bare "GameSave", bare "GameLoad",
  fixed "PCReset" [], bare "Reset",
  fixed "Sound" [⟨"Name", .str⟩, ⟨"Source", .str⟩, ⟨"Volume", .real⟩, ⟨"Repeat", .flag⟩],
  bare "EditNew", bare "MemoNew", fixed "Terminate" [], bare "DoEvent", bare "ClrRead",
  bare "MapImgNew", bare "WaveNew", bare "TileNew", bare "SliderNew", bare "ScrollbarNew",
  bare "GaugeNew", bare "CGCaption", bare "MediaPlay", bare "PrevMenuNew", bare "PropMotion",
  bare "FormatHist", bare "SaveCabinet", bare "LoadCabinet", bare "IFDEF", bare "IFNDEF",
  bare "ENDIF"]

/-- The label command. -/
def label : Opcode := ⟨0x03⟩

/-- The command that shows text. -/
def textInsert : Opcode := ⟨0x14⟩

/-- The command that offers choices. -/
def menu : Opcode := ⟨0x19⟩

/-- What the catalogue holds for an opcode. -/
def entry? (o : Opcode) : Option Entry :=
  catalogue[o.code.toNat]?

/-- Whether the catalogue names the opcode. -/
def isKnown (o : Opcode) : Bool :=
  o.entry?.isSome

/-- The name of an opcode; one outside the catalogue is shown by its code. -/
def name (o : Opcode) : String :=
  match o.entry? with
  | some entry => entry.name
  | none => "Opaque(" ++ Text.hex 2 o.code.toNat ++ ")"

/-- The schema of an opcode, if it has one. -/
def schema? (o : Opcode) : Option Schema :=
  o.entry?.bind Entry.schema

/-- The opcode with this name, in any letter case. -/
def ofName? (name : String) : Option Opcode :=
  (catalogue.findIdx? fun entry => Text.sameLetters entry.name name).map fun i => ⟨UInt8.ofNat i⟩

end Opcode

end NovelChart
