import NovelChart.Script.Markup

/-!
Scanning a script into pieces. The scanner goes through the characters once and knows only whether
it is in text, in a comment, behind a backslash or inside angle brackets. Line ends are layout and
leave no piece; a semicolon in the first column opens a comment that runs to the end of its line.
Scanning ends at the end of the script or at its first fault.
-/

namespace NovelChart.Script

/-- One unit of a script. -/
inductive Piece
  /-- A character of text, escapes resolved. -/
  | char (c : Char)
  /-- A comment line. -/
  | comment (body : String)
  /-- Markup that opened on a line. -/
  | markup (line : Nat) (m : Markup)
  deriving DecidableEq, Repr

/-- How scanning ends. -/
inductive Ending
  /-- The end of the script, on its last line. -/
  | finish (line : Nat)
  | fault (e : ScriptError)
  deriving DecidableEq, Repr

/-- The pieces of a script and how they end. -/
structure Scanned where
  pieces : List Piece
  ending : Ending
  deriving DecidableEq, Repr

/-- A piece in front of what was scanned behind it. -/
def Scanned.cons (p : Piece) (s : Scanned) : Scanned :=
  { s with pieces := p :: s.pieces }

/-- Where the scanner is. Collected characters are held in reverse. -/
inductive Mode
  /-- In text; the flag tells whether this is the first column of a line. -/
  | text (fresh : Bool)
  | comment (body : List Char)
  /-- Behind a backslash in text. -/
  | escape
  /-- Inside angle brackets that opened on a line, and whether inside quotes. -/
  | tag (start : Nat) (body : List Char) (quoted : Bool)
  /-- Behind a backslash in quotes. -/
  | tagEscape (start : Nat) (body : List Char)
  deriving DecidableEq, Repr

/-- What a backslash and a character stand for in text. -/
def escaped? (c : Char) : Option Char :=
  if c = '\\' ∨ c = '<' ∨ c = '>' ∨ c = ';' then some c
  else if c = 'n' then some '\n'
  else if c = 'r' then some '\r'
  else none

/-- The line behind a character. -/
def lineAfter (line : Nat) (c : Char) : Nat :=
  if c = '\n' then line + 1 else line

/-- Scanning that stops at a fault. -/
def stop (line : Nat) (tag : Option String) (f : ScriptFault) : Scanned :=
  ⟨[], .fault ⟨line, tag, f⟩⟩

/-- The pieces from a place of the script on. -/
def scanFrom : Mode → Nat → List Char → Scanned
  | .text _, line, [] => ⟨[], .finish line⟩
  | .text fresh, line, c :: cs =>
    if c = '\n' then scanFrom (.text true) (line + 1) cs
    else if c = '\r' then scanFrom (.text fresh) line cs
    else if c = ';' ∧ fresh then scanFrom (.comment []) line cs
    else if c = '\\' then scanFrom .escape line cs
    else if c = '<' then scanFrom (.tag line [] false) line cs
    else (scanFrom (.text false) line cs).cons (.char c)
  | .comment body, line, [] => ⟨[.comment (String.ofList body.reverse)], .finish line⟩
  | .comment body, line, c :: cs =>
    if c = '\n' then
      (scanFrom (.text true) (line + 1) cs).cons (.comment (String.ofList body.reverse))
    else if c = '\r' then scanFrom (.comment body) line cs
    else scanFrom (.comment (c :: body)) line cs
  | .escape, line, [] => stop line none .danglingEscape
  | .escape, line, c :: cs =>
    match escaped? c with
    | some d => (scanFrom (.text false) line cs).cons (.char d)
    | none => stop line none (.unknownEscape c)
  | .tag start _ _, _, [] => stop start none .unterminatedTag
  | .tag start body quoted, line, c :: cs =>
    if c = '>' ∧ ¬quoted then
      match Markup.parse body.reverse with
      | .ok m => (scanFrom (.text false) line cs).cons (.markup start m)
      | .error (tag, f) => stop start tag f
    else if c = '\\' ∧ quoted then scanFrom (.tagEscape start (c :: body)) line cs
    else
      let quoted := if c = '"' then !quoted else quoted
      scanFrom (.tag start (c :: body) quoted) (lineAfter line c) cs
  | .tagEscape start _, _, [] => stop start none .unterminatedTag
  | .tagEscape start body, line, c :: cs =>
    scanFrom (.tag start (c :: body) true) (lineAfter line c) cs

/-- The pieces of a whole script. -/
def scan (source : String) : Scanned :=
  scanFrom (.text true) 1 source.toList

end NovelChart.Script
