import NovelChart.Script.Scan

/-!
Compiling a script: the pieces are put together into a token tree. The builder keeps the spans
that are open on a stack, collects the characters of the current run, and lets a run end where
markup or a kept comment begins. Dropping a comment leaves no trace, so the runs around it become
one.
-/

namespace NovelChart.Script

/-- A span that is open, with the tokens that stand before it, last first. -/
structure Frame where
  tag : Tag
  before : List Token
  deriving DecidableEq, Repr

/-- A tree under construction. Tokens and characters are held last first. -/
structure Builder where
  /-- The open spans, innermost first. -/
  stack : List Frame := []
  /-- The tokens of the innermost level. -/
  tokens : List Token := []
  /-- The characters of the current run. -/
  run : List Char := []
  deriving DecidableEq, Repr

namespace Builder

/-- Ends the current run. -/
def flush (b : Builder) : Builder :=
  if b.run.isEmpty then b
  else { b with tokens := .text (String.ofList b.run.reverse) :: b.tokens, run := [] }

/-- Ends the current run and adds a token. -/
def push (b : Builder) (t : Token) : Builder :=
  let b := b.flush
  { b with tokens := t :: b.tokens }

/-- Opens a span. -/
def enter (b : Builder) (tag : Tag) : Builder :=
  let b := b.flush
  ⟨⟨tag, b.tokens⟩ :: b.stack, [], []⟩

/-- Takes in one piece. -/
def step (keepComments : Bool) (b : Builder) : Piece → Except ScriptError Builder
  | .char c => .ok { b with run := c :: b.run }
  | .comment body => .ok (if keepComments then b.push (.comment body) else b)
  | .markup _ (.token t) => .ok (b.push t)
  | .markup line (.opening spec attrs) =>
    if maxDepth ≤ b.stack.length then .error ⟨line, some spec.name, .tooDeep⟩
    else .ok (b.enter ⟨spec.name, attrs⟩)
  | .markup line (.closing name) =>
    match b.stack with
    | [] => .error ⟨line, some name, .strayClose⟩
    | frame :: stack =>
      if Text.sameLetters frame.tag.name name then
        .ok ⟨stack, .span frame.tag b.flush.tokens.reverse :: frame.before, []⟩
      else .error ⟨line, some name, .wrongClose frame.tag.name⟩

/-- The finished tree. -/
def finish (b : Builder) : Ending → Except ScriptError (List Token)
  | .fault e => .error e
  | .finish line =>
    match b.stack with
    | [] => .ok b.flush.tokens.reverse
    | frame :: _ => .error ⟨line, some frame.tag.name, .neverClosed⟩

end Builder

/-- The tree that scanned pieces make. -/
def build (keepComments : Bool) (s : Scanned) : Except ScriptError (List Token) := do
  let b ← s.pieces.foldlM (Builder.step keepComments) {}
  b.finish s.ending

/-- The tokens of a script. -/
def compile (keepComments : Bool) (source : String) : Except ScriptError (List Token) :=
  build keepComments (scan source)

end NovelChart.Script
