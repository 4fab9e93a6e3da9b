import NovelChart.Decimal.Nearest
import NovelChart.Document.Basic
import NovelChart.Text.Blank
import NovelChart.Text.Numeral

/-!
Documents as text, in flow style: lists in square brackets, records in braces, texts in double
quotes, other scalars bare. The character between a key and its value is a parameter, so that the
same grammar serves documents and the values of settings. Text is cut into lexemes first; a hash
sign between lexemes opens a comment.
-/

namespace NovelChart.Document

/-! ### Writing -/

/-- A character inside quotes. -/
def quoteChar (c : Char) : List Char :=
  if c = '"' ∨ c = '\\' then ['\\', c]
  else if c = '\n' then ['\\', 'n']
  else if c = '\r' then ['\\', 'r']
  else if c = '\t' then ['\\', 't']
  else if c.toNat < 0x20 ∨ c.toNat = 0x7F then '\\' :: 'u' :: (Text.hexDigits 4 c.toNat).toList
  else [c]

/-- A text in quotes. -/
def quote (s : String) : List Char :=
  '"' :: s.toList.flatMap quoteChar ++ ['"']

mutual

/-- The text of a document; the mark stands between a key and its value. -/
def print (mark : List Char) : Document → List Char
  | null => "null".toList
  | flag b => (if b then "true" else "false").toList
  | int n => (toString n).toList
  | real bits => (realText bits).toList
  | text s => quote s
  | list items => '[' :: printItems mark items
  | record fields => '\x7b' :: printFields mark fields

/-- The items of a list, each on a line of its own, and the closing bracket. -/
def printItems (mark : List Char) : List Document → List Char
  | [] => [']']
  | [item] => item.print mark ++ [']']
  | item :: rest => item.print mark ++ ',' :: '\n' :: printItems mark rest

/-- The fields of a record and the closing brace. -/
def printFields (mark : List Char) : List (String × Document) → List Char
  | [] => ['\x7d']
  | [(key, value)] => quote key ++ mark ++ value.print mark ++ ['\x7d']
  | (key, value) :: rest =>
    quote key ++ mark ++ value.print mark ++ ',' :: ' ' :: printFields mark rest

end

/-- The text of a document, ended by a line feed. -/
def toText (d : Document) : String :=
  String.ofList (d.print [':', ' '] ++ ['\n'])

/-! ### Lexemes -/

/-- A unit of the text of a document. -/
inductive Lexeme
  | openList
  | closeList
  | openRecord
  | closeRecord
  | comma
  | mark
  | quoted (s : String)
  | bare (s : String)
  deriving DecidableEq, Repr

/-- The lexeme that a character is by itself. -/
def single? (mark c : Char) : Option Lexeme :=
  if c = '[' then some .openList
  else if c = ']' then some .closeList
  else if c = '\x7b' then some .openRecord
  else if c = '\x7d' then some .closeRecord
  else if c = ',' then some .comma
  else if c = mark then some .mark
  else none

/-- The value of a hexadecimal digit. -/
def hexDigit? (c : Char) : Option Nat :=
  if c.isDigit then some (c.toNat - '0'.toNat)
  else if 'a' ≤ c ∧ c ≤ 'f' then some (c.toNat - 'a'.toNat + 10)
  else if 'A' ≤ c ∧ c ≤ 'F' then some (c.toNat - 'A'.toNat + 10)
  else none

/-- What a backslash and a character stand for in quotes. -/
def unescape? (c : Char) : Option Char :=
  if c = '"' ∨ c = '\\' ∨ c = '/' then some c
  else if c = 'n' then some '\n'
  else if c = 'r' then some '\r'
  else if c = 't' then some '\t'
  else none

/-- Where the reader is. Collected characters are held in reverse. -/
inductive LexMode
  | between
  | comment
  | quoted (taken : List Char)
  | escape (taken : List Char)
  /-- In a code point, with digits still to come. -/
  | code (taken : List Char) (left value : Nat)
  | bare (taken : List Char)
  deriving DecidableEq, Repr

/-- The lexemes from a place of the text on. -/
def lexFrom (mark : Char) : LexMode → List Char → Option (List Lexeme)
  | .between, [] => some []
  | .between, c :: cs =>
    if Text.isBlank c then lexFrom mark .between cs
    else if c = '#' then lexFrom mark .comment cs
    else if c = '"' then lexFrom mark (.quoted []) cs
    else
      match single? mark c with
      | some lexeme => (lexFrom mark .between cs).map (lexeme :: ·)
      | none => lexFrom mark (.bare [c]) cs
  | .comment, [] => some []
  | .comment, c :: cs => lexFrom mark (if c = '\n' then .between else .comment) cs
  | .quoted _, [] => none
  | .quoted taken, c :: cs =>
    if c = '"' then
      (lexFrom mark .between cs).map (.quoted (String.ofList taken.reverse) :: ·)
    else if c = '\\' then lexFrom mark (.escape taken) cs
    else lexFrom mark (.quoted (c :: taken)) cs
  | .escape _, [] => none
  | .escape taken, c :: cs =>
    if c = 'u' then lexFrom mark (.code taken 4 0) cs
    else
      match unescape? c with
      | some d => lexFrom mark (.quoted (d :: taken)) cs
      | none => none
  | .code _ _ _, [] => none
  | .code taken left value, c :: cs =>
    match hexDigit? c with
    | none => none
    | some d =>
      if left ≤ 1 then lexFrom mark (.quoted (Char.ofNat (16 * value + d) :: taken)) cs
      else lexFrom mark (.code taken (left - 1) (16 * value + d)) cs
  | .bare taken, [] => some [.bare (String.ofList taken.reverse)]
  | .bare taken, c :: cs =>
    if Text.isBlank c then
      (lexFrom mark .between cs).map (.bare (String.ofList taken.reverse) :: ·)
    else
      match single? mark c with
      | some lexeme =>
        (lexFrom mark .between cs).map (.bare (String.ofList taken.reverse) :: lexeme :: ·)
      | none => lexFrom mark (.bare (c :: taken)) cs

/-! ### Reading -/

/-- The whole number that bare text spells. -/
def bareInt? : List Char → Option Int
  | '-' :: cs => if cs.isEmpty then none else (Decimal.digits? cs).map fun n => -(n : Int)
  | '+' :: cs => if cs.isEmpty then none else (Decimal.digits? cs).map fun n => (n : Int)
  | cs => if cs.isEmpty then none else (Decimal.digits? cs).map fun n => (n : Int)

/-- The scalar that bare text spells. -/
def ofBare (s : String) : Document :=
  if s = "null" ∨ s = "~" then null
  else if s = "true" then flag true
  else if s = "false" then flag false
  else if s = ".nan" then real 0x7FF8000000000000
  else if s = ".inf" then real 0x7FF0000000000000
  else if s = "-.inf" then real 0xFFF0000000000000
  else
    match bareInt? s.toList with
    | some n => int n
    | none =>
      match Decimal.ofText? s.toList with
      | some bits => real bits
      | none => text s

/-- The key that a lexeme spells. -/
def key? : Lexeme → Option String
  | .quoted s => some s
  | .bare s => some s
  | _ => none

mutual

/-- A document at the front of lexemes, within a number of steps, and what follows it. -/
def read : Nat → List Lexeme → Option (Document × List Lexeme)
  | 0, _ => none
  | _ + 1, .quoted s :: rest => some (text s, rest)
  | _ + 1, .bare s :: rest => some (ofBare s, rest)
  | steps + 1, .openList :: rest =>
    (readItems steps rest).map fun (items, rest) => (list items, rest)
  | steps + 1, .openRecord :: rest =>
    (readFields steps rest).map fun (fields, rest) => (record fields, rest)
  | _, _ => none

/-- The items of a list up to its closing bracket. -/
def readItems : Nat → List Lexeme → Option (List Document × List Lexeme)
  | 0, _ => none
  | _ + 1, .closeList :: rest => some ([], rest)
  | steps + 1, lexemes => do
    let (item, rest) ← read steps lexemes
    match rest with
    | .comma :: rest =>
      let (items, rest) ← readItems steps rest
      return (item :: items, rest)
    | .closeList :: rest => return ([item], rest)
    | _ => none

/-- The fields of a record up to its closing brace. -/
def readFields : Nat → List Lexeme → Option (List (String × Document) × List Lexeme)
  | 0, _ => none
  | _ + 1, .closeRecord :: rest => some ([], rest)
  | steps + 1, lexeme :: .mark :: rest => do
    let key ← key? lexeme
    let (value, rest) ← read steps rest
    match rest with
    | .comma :: rest =>
      let (fields, rest) ← readFields steps rest
      return ((key, value) :: fields, rest)
    | .closeRecord :: rest => return ([(key, value)], rest)
    | _ => none
  | _, _ => none

end

/-- The document that characters spell. -/
def parse? (mark : Char) (cs : List Char) : Option Document := do
  let lexemes ← lexFrom mark .between cs
  match ← read (2 * lexemes.length + 1) lexemes with
  | (d, []) => return d
  | _ => none

/-- The document that a text spells. -/
def ofText? (s : String) : Option Document :=
  parse? ':' s.toList

end NovelChart.Document
