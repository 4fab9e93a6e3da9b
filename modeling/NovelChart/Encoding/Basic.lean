import NovelChart.Encoding.DoubleByte
import NovelChart.Text.Case

/-!
Strict text encodings. Decoding accepts a byte string only when encoding the text gives the same
bytes back, so a chart that is read and written again keeps every string bit for bit. Encoding
refuses the first character that the encoding cannot write and never puts another in its place.
-/

namespace NovelChart

/-- The encodings that a chart or a script file may use. -/
inductive Encoding
  | cp932
  | utf8
  deriving DecidableEq, Repr, Inhabited

/-- Why text and bytes do not correspond. -/
inductive TextFault
  | malformed (encoding : Encoding)
  | nonCanonical (encoding : Encoding)
  | unencodable (c : Char) (encoding : Encoding)
  deriving DecidableEq, Repr

namespace Encoding

/-- The name that messages use. -/
def name : Encoding → String
  | cp932 => "CP932"
  | utf8 => "UTF-8"

/-- The registered label of the character set. -/
def label : Encoding → String
  | cp932 => "Shift_JIS"
  | utf8 => "UTF-8"

/-- The spelling that settings use. -/
def key : Encoding → String
  | cp932 => "cp932"
  | utf8 => "utf8"

/-- The encoding that a user names, in any letter case. -/
def ofName? (s : String) : Option Encoding :=
  let name := Text.lower s
  if name ∈ ["cp932", "sjis", "shift_jis", "shift-jis"] then some cp932
  else if name ∈ ["utf8", "utf-8"] then some utf8
  else none

/-- The encoding that a settings file names, spelled exactly. -/
def ofKey? (s : String) : Option Encoding :=
  if s = key cp932 then some cp932 else if s = key utf8 then some utf8 else none

end Encoding

/-- The wording of a text fault. -/
def TextFault.message : TextFault → String
  | malformed e => "byte sequence is not valid " ++ e.name
  | nonCanonical e => "byte sequence does not re-encode identically in " ++ e.name
  | unencodable c e => "'" ++ String.singleton c ++ "' is not a valid " ++ e.name ++ " character"

namespace Encoding

/-! ### CP932 -/

/-- The CP932 bytes of one character. Half-width katakana and the first 129 code points take one
byte; the yen sign, the overline and the minus sign share the code of a look-alike. -/
def cp932Char (c : Char) : Option (List UInt8) :=
  let n := c.toNat
  if n ≤ 0x80 then some [UInt8.ofNat n]
  else if 0xFF61 ≤ n ∧ n ≤ 0xFF9F then some [UInt8.ofNat (n - 0xFF61 + 0xA1)]
  else if n = 0xA5 then some [0x5C]
  else if n = 0x203E then some [0x7E]
  else if n = 0x2212 then some [0x81, 0x7C]
  else (DoubleByte.code? c).map fun (lead, trail) => [lead, trail]

/-- The character that a single byte spells. -/
def singleByte? (b : UInt8) : Option Char :=
  if b ≤ 0x80 then some (Char.ofNat b.toNat)
  else if 0xA1 ≤ b ∧ b ≤ 0xDF then some (Char.ofNat (b.toNat - 0xA1 + 0xFF61))
  else none

/-- Whether the byte leads a pair. -/
def isLead (b : UInt8) : Bool :=
  (0x81 ≤ b && b ≤ 0x9F) || (0xE0 ≤ b && b ≤ 0xFC)

/-- The characters that CP932 bytes spell. A second spelling reads as the replacement character,
which CP932 cannot write. -/
def cp932Chars : List UInt8 → Option (List Char)
  | [] => some []
  | b :: rest =>
    match singleByte? b with
    | some c => (cp932Chars rest).map (c :: ·)
    | none =>
      if isLead b then
        match rest with
        | [] => none
        | trail :: rest =>
          match DoubleByte.pair b trail with
          | .unassigned => none
          | .alias => (cp932Chars rest).map ('\uFFFD' :: ·)
          | .char c => (cp932Chars rest).map (c :: ·)
      else none

/-! ### Both encodings -/

/-- The bytes of one character, if the encoding can write it. -/
def encodeChar : Encoding → Char → Option (List UInt8)
  | cp932, c => cp932Char c
  | utf8, c => some (String.utf8EncodeChar c)

/-- The bytes of a list of characters, or a fault at the first that cannot be written. -/
def encodeChars (e : Encoding) : List Char → Except TextFault (List UInt8)
  | [] => .ok []
  | c :: cs =>
    match e.encodeChar c with
    | none => .error (.unencodable c e)
    | some bytes => do
      let rest ← e.encodeChars cs
      return bytes ++ rest

/-- The bytes of a text. -/
def encode (e : Encoding) (s : String) : Except TextFault (List UInt8) :=
  e.encodeChars s.toList

/-- The text of a byte string that spells it in the one way `encode` does. -/
def decode : Encoding → List UInt8 → Except TextFault String
  | utf8, bytes =>
    match String.fromUTF8? ⟨bytes.toArray⟩ with
    | none => .error (.malformed utf8)
    | some s => .ok s
  | cp932, bytes =>
    match cp932Chars bytes with
    | none => .error (.malformed cp932)
    | some cs =>
      if (cp932.encodeChars cs).toOption = some bytes then .ok (String.ofList cs)
      else .error (.nonCanonical cp932)

/-- The first character that the encoding cannot write. -/
def firstUnencodable (e : Encoding) (s : String) : Option Char :=
  s.toList.find? fun c => (e.encodeChar c).isNone

/-- Refuses a text that the encoding cannot write. -/
def check (e : Encoding) (s : String) : Except TextFault Unit :=
  match e.firstUnencodable s with
  | some c => .error (.unencodable c e)
  | none => .ok ()

end Encoding

end NovelChart
