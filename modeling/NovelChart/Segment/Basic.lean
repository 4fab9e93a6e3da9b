import NovelChart.Markup.Token
import NovelChart.Text.Lines

/-!
Segments: the stretches of a text block that can be edited one by one. A segment is a stretch of
runs of text and line breaks among siblings that begins and ends with a run of text. It is
addressed by the path of spans that leads to its siblings and by the places of its ends; the
segments of a block are numbered in the order of the document.
-/

namespace NovelChart

/-- A stretch of sibling tokens. -/
structure Segment where
  /-- The places of the enclosing spans, outermost first. -/
  path : List Nat
  /-- The place of the first token. -/
  start : Nat
  /-- The place behind the last token. -/
  stop : Nat
  deriving DecidableEq, Repr

namespace Segment

/-- The segment of a stretch whose first and last runs of text are known, if it has any. -/
def close (path : List Nat) : Option (Nat × Nat) → List Segment
  | some (first, last) => [⟨path, first, last + 1⟩]
  | none => []

/-- A stretch with a further run of text at a place. -/
def extend (stretch : Option (Nat × Nat)) (i : Nat) : Nat × Nat :=
  match stretch with
  | some (first, _) => (first, i)
  | none => (i, i)

mutual

/-- The segments inside the token at a place. -/
def inside (path : List Nat) (i : Nat) : Token → List Segment
  | .span _ content => collect (path ++ [i]) 0 none content
  | _ => []

/-- The segments of siblings from a place on. The stretch that is open there is given by its first
and last runs of text; line breaks belong to it only between runs. -/
def collect (path : List Nat) (i : Nat) (stretch : Option (Nat × Nat)) : List Token → List Segment
  | [] => close path stretch
  | t :: ts =>
    match t with
    | .text _ => collect path (i + 1) (some (extend stretch i)) ts
    | .lineBreak => collect path (i + 1) stretch ts
    | t => close path stretch ++ inside path i t ++ collect path (i + 1) none ts

end

/-- The segments of a token tree in document order. -/
def ofTokens (tokens : List Token) : List Segment :=
  collect [] 0 none tokens

/-- The siblings that a path leads to. -/
def siblings? : List Nat → List Token → Option (List Token)
  | [], tokens => some tokens
  | i :: path, tokens =>
    match tokens[i]? with
    | some (.span _ content) => siblings? path content
    | _ => none

/-- A token tree with other siblings at the end of a path. -/
def modifySiblings (f : List Token → List Token) : List Nat → List Token → List Token
  | [], tokens => f tokens
  | i :: path, tokens =>
    tokens.modify i fun
      | .span tag content => .span tag (modifySiblings f path content)
      | t => t

/-- The plain text of a run or a line break. -/
def tokenText : Token → List Char
  | .text run => run.toList
  | .lineBreak => ['\n']
  | _ => []

/-- The plain text of a segment. -/
def text? (tokens : List Token) (s : Segment) : Option String :=
  (siblings? s.path tokens).map fun siblings =>
    String.ofList (((siblings.take s.stop).drop s.start).flatMap tokenText)

/-- A token tree with other tokens in place of a segment. -/
def replace (tokens : List Token) (s : Segment) (content : List Token) : List Token :=
  modifySiblings (fun siblings => siblings.take s.start ++ content ++ siblings.drop s.stop) s.path
    tokens

end Segment

/-- The token of a line, if there is anything on it. -/
def lineTokens (line : List Char) : List Token :=
  if line.isEmpty then [] else [.text (String.ofList line)]

/-- The tokens of plain text: a run for each line that is not empty, and breaks between lines. -/
def plainTokens (text : String) : List Token :=
  match (Text.pieces '\n' text.toList).map (lineTokens ∘ Text.dropReturn) with
  | [] => []
  | line :: rest => line ++ rest.flatMap (.lineBreak :: ·)

end NovelChart
