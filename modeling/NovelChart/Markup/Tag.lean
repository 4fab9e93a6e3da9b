import NovelChart.Error
import NovelChart.Text.Blank
import NovelChart.Text.Case

/-!
The table of inline tags. For each tag it gives the binary code, the attributes in their canonical
order, and whether the tag encloses content. Line and page breaks are tokens of their own and stand
outside the table.
-/

namespace NovelChart

/-- How an attribute value is stored. -/
inductive AttrKind
  | int
  | str
  /-- One word of a list, stored by its place. -/
  | word (words : List String)
  deriving DecidableEq, Repr

/-- An attribute that a tag may carry. -/
structure AttrSpec where
  name : String
  kind : AttrKind
  deriving DecidableEq, Repr

/-- The binary form of a tag. -/
inductive TagCode
  /-- A break token of this kind. -/
  | brk (kind : UInt8)
  /-- A tag token with this code. -/
  | tag (code : UInt8)
  deriving DecidableEq, Repr

/-- One row of the tag table. -/
structure TagSpec where
  name : String
  code : TagCode
  /-- The attributes in canonical order; each has one bit of the presence mask. -/
  attrs : List AttrSpec
  /-- Whether the tag encloses content. -/
  paired : Bool
  deriving DecidableEq, Repr

/-- The break kind of a line break. -/
def lineBreakKind : UInt8 := 0

/-- The break kind of a page break. -/
def pageBreakKind : UInt8 := 1

/-- The deepest nesting of paired tags. -/
def maxDepth : Nat := 64

namespace TagSpec

/-- A tag that stands alone. -/
def single (name : String) (code : UInt8) (attrs : List AttrSpec) : TagSpec :=
  ⟨name, .tag code, attrs, false⟩

/-- A tag that encloses content. -/
def pair (name : String) (code : UInt8) (attrs : List AttrSpec) : TagSpec :=
  ⟨name, .tag code, attrs, true⟩

/-- Every tag other than the line and page break. -/
def table : List TagSpec := [
  ⟨"PS", .brk 2, [], false⟩,
  ⟨"CLR", .brk 3, [], false⟩,
  single "WAIT" 0x03 [⟨"TIME", .int⟩],
  single "TXSPD" 0x04 [⟨"TIME", .int⟩],
  single "TXSPF" 0x05 [],
  single "TXSPN" 0x06 [],
  single "TXSPS" 0x07 [],
  single "INDENT" 0x08 [],
  single "UNDENT" 0x09 [],
  single "EVENT" 0x0A [⟨"NAME", .str⟩],
  single "VAR" 0x0B [⟨"NAME", .str⟩],
  single "IMG" 0x0C [⟨"SRC", .str⟩, ⟨"ALIGN", .word ["TOP", "CENTER", "BOTTOM"]⟩,
    ⟨"HOVERSRC", .str⟩, ⟨"DOWNSRC", .str⟩],
  single "HISTCHAR" 0x0D [⟨"NAME", .str⟩],
  single "CONDITION" 0x0E [⟨"ID", .int⟩],
  pair "STYLE" 0x10 [⟨"ID", .int⟩],
  pair "A" 0x11 [⟨"ID", .int⟩, ⟨"NAME", .str⟩],
  pair "DIV" 0x12 [⟨"ALIGN", .word ["LEFT", "CENTER", "RIGHT"]⟩, ⟨"PADLEFT", .int⟩,
    ⟨"PADRIGHT", .int⟩],
  pair "RUBY" 0x13 [⟨"TEXT", .str⟩]]

/-- The tag with this name, in any letter case. -/
def ofName? (name : String) : Option TagSpec :=
  table.find? fun spec => Text.sameLetters spec.name name

/-- The tag with this binary code. -/
def ofCode? (code : TagCode) : Option TagSpec :=
  table.find? fun spec => spec.code = code

/-- The place of an attribute, its name being in any letter case. -/
def attrIndex? (spec : TagSpec) (name : String) : Option Nat :=
  spec.attrs.findIdx? fun a => Text.sameLetters a.name name

end TagSpec

/-- The number that an integer attribute spells, blanks around it aside. -/
def AttrSpec.int? (value : String) : Option Int32 :=
  Text.readInt32 (Text.trim value.toList)

/-- The canonical spelling of an attribute value: integers in plain decimal, words as listed. -/
def AttrSpec.canonical (a : AttrSpec) (key value : String) : Except AttrFault String :=
  match a.kind with
  | .str => .ok value
  | .int =>
    match int? value with
    | some n => .ok (Text.int32 n)
    | none => .error (.notInteger key value)
  | .word words =>
    match words.find? fun word => Text.sameLetters word value with
    | some word => .ok word
    | none => .error (.notKeyword key value words)

namespace TagSpec

/-- Puts attributes, in the order given, into the places that the tag has for them. Each value
passes through `check`; a name that the tag does not know, or knows to be taken, is a fault. -/
def place (check : AttrSpec → String → String → Except AttrFault String) (spec : TagSpec) :
    List (String × String) → List (Nat × String) → Except AttrFault (List (Nat × String))
  | [], placed => .ok placed
  | (key, value) :: rest, placed =>
    match spec.attrs.zipIdx.find? fun (a, _) => Text.sameLetters a.name key with
    | none => .error (.unknown key)
    | some (a, i) =>
      if (placed.lookup i).isSome then .error (.duplicate key)
      else do
        let value ← check a key value
        place check spec rest ((i, value) :: placed)

/-- Placed attributes in canonical order, under their canonical names. -/
def arrange (spec : TagSpec) (placed : List (Nat × String)) : List (AttrSpec × String) :=
  spec.attrs.zipIdx.filterMap fun (a, i) => (placed.lookup i).map fun value => (a, value)

/-- Attributes in canonical names, order and values. -/
def normalize (spec : TagSpec) (attrs : List (String × String)) :
    Except AttrFault (List (String × String)) := do
  let placed ← spec.place AttrSpec.canonical attrs []
  return (spec.arrange placed).map fun (a, value) => (a.name, value)

end TagSpec

end NovelChart
