import NovelChart.Bytes.Cursor
import NovelChart.Markup.Tag
import NovelChart.Markup.Token

/-!
The binary form of text blocks: a signature, a version of three digits, and counted tokens. A run of
text is written as one token per character and read back as one run; a tag is written as its code, a
mask of the attributes that are present, their values in canonical order and, for a paired tag, the
counted tokens inside. Nesting is limited in both directions.
-/

namespace NovelChart

namespace Markup

/-- The bytes that open every block. -/
def signature : List UInt8 := [0x54, 0x70, 0x57, 0x6F, 0x72, 0x64]

/-- The token type of one character. -/
def charToken : UInt8 := 1

/-- The token type of a tag. -/
def tagToken : UInt8 := 2

/-- The token type of a break. -/
def breakToken : UInt8 := 3

/-! ### Reading -/

/-- A fault of the block, found at a cursor. -/
def fault {α : Type} (c : Cursor) (f : BlockFault) : Except FormatError α :=
  .error (c.error (.badTextBlock f))

/-- The value of a stored attribute; faults are reported where its token starts. -/
def readAttr (r : Reading) (start : Cursor) (a : AttrSpec) (c : Cursor) :
    Except FormatError (Step String) :=
  match a.kind with
  | .int => do
    let (n, c) ← c.i32
    return (Text.int32 n, c)
  | .str => c.text r
  | .word words => do
    let (i, c) ← c.u8
    match words[i.toNat]? with
    | some word => return (word, c)
    | none => fault start (.wordOutOfRange a.name i.toNat)

/-- The attributes whose bits are set in the mask, from bit `i` on. -/
def readAttrs (r : Reading) (start : Cursor) (mask : Nat) :
    Nat → List AttrSpec → Cursor → Except FormatError (Step (List (String × String)))
  | _, [], c => .ok ([], c)
  | i, a :: as, c =>
    if mask.testBit i then do
      let (value, c) ← readAttr r start a c
      let (rest, c) ← readAttrs r start mask (i + 1) as c
      return ((a.name, value) :: rest, c)
    else readAttrs r start mask (i + 1) as c

/-- A tag token behind its type byte. The reader of counted content is an argument, so that nesting
is bounded by how often it was built. -/
def readTag (r : Reading) (content : Nat → Cursor → Except FormatError (Step (List Token)))
    (start c : Cursor) : Except FormatError (Step Token) := do
  let (code, c) ← c.u8
  match TagSpec.ofCode? (.tag code) with
  | none => fault start (.unknownTagCode code)
  | some spec =>
    let (mask, c) ← c.u8
    if mask.toNat >>> spec.attrs.length ≠ 0 then fault start (.maskTooWide mask spec.name)
    else
      let (attrs, c) ← readAttrs r start mask.toNat 0 spec.attrs c
      if spec.paired then
        let (count, c) ← c.u32
        let (tokens, c) ← content count.toNat c
        return (.span ⟨spec.name, attrs⟩ tokens, c)
      else return (.mark ⟨spec.name, attrs⟩, c)

/-- A character token behind its type byte. -/
def readChar (r : Reading) (start c : Cursor) : Except FormatError (Step Token) := do
  let (length, c) ← c.u8
  let (bytes, c) ← c.take length.toNat
  match r.encoding.decode bytes with
  | .error f => .error (start.error (.badString f))
  | .ok s => if s.toList.length = 1 then return (.text s, c) else fault start .notOneCharacter

/-- A break token behind its type byte. -/
def readBreak (start c : Cursor) : Except FormatError (Step Token) := do
  let (kind, c) ← c.u8
  if kind = lineBreakKind then return (.lineBreak, c)
  else if kind = pageBreakKind then return (.pageBreak, c)
  else
    match TagSpec.ofCode? (.brk kind) with
    | some spec => return (.mark ⟨spec.name, []⟩, c)
    | none => fault start (.unknownBreak kind)

/-- One token. -/
def readToken (r : Reading) (content : Nat → Cursor → Except FormatError (Step (List Token)))
    (start : Cursor) : Except FormatError (Step Token) := do
  let (type, c) ← start.u8
  if type = charToken then readChar r start c
  else if type = tagToken then readTag r content start c
  else if type = breakToken then readBreak start c
  else fault start (.unknownToken type)

/-- A number of tokens, with neighbouring runs of text joined. -/
def readTokens (r : Reading) (content : Nat → Cursor → Except FormatError (Step (List Token))) :
    Nat → Cursor → Except FormatError (Step (List Token))
  | 0, c => .ok ([], c)
  | n + 1, c => do
    let (token, c) ← readToken r content c
    let (rest, c) ← readTokens r content n c
    return (token.join rest, c)

/-- The content behind a token count, with `room` for further levels of nesting. -/
def readContent (r : Reading) : Nat → Nat → Cursor → Except FormatError (Step (List Token))
  | 0, _, c => fault c .tooDeep
  | room + 1, count, c =>
    if c.admits r count 2 then readTokens r (readContent r room) count c
    else .error (c.error .truncated)

/-- The version that three ASCII digits spell. -/
def readVersion (digits : List UInt8) : Option UInt16 :=
  if digits.all fun d => 0x30 ≤ d && d ≤ 0x39 then
    some (UInt16.ofNat (digits.foldl (fun n d => n * 10 + (d.toNat - 0x30)) 0))
  else none

/-! ### Writing -/

/-- The bytes of an attribute value. -/
def encodeAttr (e : Encoding) (tag : String) (a : AttrSpec) (value : String) :
    Except Error (List UInt8) :=
  match a.kind with
  | .int =>
    match AttrSpec.int? value with
    | some n => .ok (Bytes.i32 n)
    | none => .error (.tag tag (.attr (.notInteger a.name value)))
  | .str => do return Bytes.counted (← e.write value)
  | .word words =>
    match words.findIdx? fun word => Text.sameLetters word value with
    | some i => .ok [UInt8.ofNat i]
    | none => .error (.tag tag (.attr (.notKeyword a.name value words)))

/-- The bytes of attribute values in order. -/
def encodeAttrs (e : Encoding) (tag : String) :
    List (AttrSpec × String) → Except Error (List UInt8)
  | [] => .ok []
  | (a, value) :: rest => do
    let bytes ← encodeAttr e tag a value
    let more ← encodeAttrs e tag rest
    return bytes ++ more

/-- The presence mask of placed attributes. -/
def attrMask (placed : List (Nat × String)) : Nat :=
  placed.foldr (fun (i, _) mask => (1 <<< i) + mask) 0

/-- The bytes of a tag with placed attributes, up to its content. -/
def encodePlaced (e : Encoding) (tag : Tag) (spec : TagSpec) (placed : List (Nat × String)) :
    Except Error (List UInt8) :=
  match spec.code with
  | .brk kind =>
    if placed.isEmpty then .ok [breakToken, kind] else .error (.tag tag.name .noAttributes)
  | .tag code => do
    let values ← encodeAttrs e tag.name (spec.arrange placed)
    return [tagToken, code, UInt8.ofNat (attrMask placed)] ++ values

/-- The bytes of a tag up to its content. -/
def encodeHead (e : Encoding) (tag : Tag) (paired : Bool) : Except Error (List UInt8) :=
  match TagSpec.ofName? tag.name with
  | none => .error (.tag tag.name .unsupported)
  | some spec =>
    if spec.paired ≠ paired then
      .error (.tag tag.name (if spec.paired then .missingContent else .extraContent))
    else
      match spec.place (fun _ _ value => .ok value) tag.attrs [] with
      | .error f => .error (.tag tag.name (.attr f))
      | .ok placed => encodePlaced e tag spec placed

/-- The bytes of a run, one token per character. -/
def encodeRun (e : Encoding) : List Char → Except Error (List UInt8)
  | [] => .ok []
  | c :: cs => do
    let bytes ← e.write (String.singleton c)
    let rest ← encodeRun e cs
    return [charToken, UInt8.ofNat bytes.length] ++ bytes ++ rest

mutual

/-- How many binary tokens a token makes, and their bytes. -/
def encodeToken (e : Encoding) (depth : Nat) : Token → Except Error (Nat × List UInt8)
  | .text run => do
    let bytes ← encodeRun e run.toList
    return (run.toList.length, bytes)
  | .lineBreak => .ok (1, [breakToken, lineBreakKind])
  | .pageBreak => .ok (1, [breakToken, pageBreakKind])
  | .comment _ => .ok (0, [])
  | .mark tag => do
    let head ← encodeHead e tag false
    return (1, head)
  | .span tag content => do
    let head ← encodeHead e tag true
    if maxDepth ≤ depth then .error (.tag tag.name .tooDeep)
    else
      let (count, bytes) ← encodeTokens e (depth + 1) content
      return (1, head ++ Bytes.count count ++ bytes)

/-- How many binary tokens a token list makes, and their bytes. -/
def encodeTokens (e : Encoding) (depth : Nat) : List Token → Except Error (Nat × List UInt8)
  | [] => .ok (0, [])
  | t :: ts => do
    let (n, bytes) ← encodeToken e depth t
    let (m, rest) ← encodeTokens e depth ts
    return (n + m, bytes ++ rest)

end

end Markup

namespace TextBlock

/-- Reads a block. -/
def decode (r : Reading) (c : Cursor) : Except FormatError (Step TextBlock) := do
  let (opening, c₁) ← c.take 6
  if opening ≠ Markup.signature then Markup.fault c .missingSignature
  else
    let (digits, c₂) ← c₁.take 3
    match Markup.readVersion digits with
    | none => Markup.fault c₁ .badVersion
    | some version =>
      let (count, c₃) ← c₂.u32
      let (tokens, c₄) ← Markup.readContent r (maxDepth + 1) count.toNat c₃
      return (⟨version, tokens⟩, c₄)

/-- The block that a byte string holds, and nothing else. -/
def ofBytes (e : Encoding) (bytes : List UInt8) : Except FormatError TextBlock := do
  let (block, c) ← decode ⟨e, true⟩ (Cursor.ofBytes bytes)
  c.finish
  return block

/-- The bytes of a block. -/
def encode (e : Encoding) (b : TextBlock) : Except Error (List UInt8) :=
  if 999 < b.version.toNat then .error (.tag "TpWord" (.blockVersion b.version.toNat))
  else do
    let (count, bytes) ← Markup.encodeTokens e 0 b.tokens
    let digits := (Text.threeDigits b.version.toNat).map fun c => UInt8.ofNat c.toNat
    return Markup.signature ++ digits ++ Bytes.count count ++ bytes

end TextBlock

end NovelChart
