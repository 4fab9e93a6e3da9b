import NovelChart.Text.Case

/-!
The content of a text block: a tree of tokens. Runs of text, line and page breaks and tags stand
side by side; a span is a tag that encloses tokens of its own. Comments only live in scripts and
are never written to a chart.
-/

namespace NovelChart

/-- The name and attributes of an inline tag. -/
structure Tag where
  name : String
  attrs : List (String × String) := []
  deriving DecidableEq, Repr, Inhabited

/-- The value of an attribute, its name being in any letter case. -/
def Tag.attr? (t : Tag) (name : String) : Option String :=
  (t.attrs.find? fun (key, _) => Text.sameLetters key name).map Prod.snd

/-- One element of a text block. -/
inductive Token
  | text (run : String)
  | lineBreak
  | pageBreak
  | comment (body : String)
  /-- A tag without content. -/
  | mark (tag : Tag)
  /-- A tag with the tokens that it encloses. -/
  | span (tag : Tag) (content : List Token)
  deriving Repr, Inhabited

namespace Token

/-- Whether the token is a run of text. -/
def isText : Token → Bool
  | text _ => true
  | _ => false

/-- Puts a token in front of others; a run of text joins a run that follows it. -/
def join : Token → List Token → List Token
  | text a, text b :: rest => text (a ++ b) :: rest
  | t, rest => t :: rest

mutual

/-- Whether two tokens are the same. -/
def same : Token → Token → Bool
  | text a, text b => a == b
  | lineBreak, lineBreak => true
  | pageBreak, pageBreak => true
  | comment a, comment b => a == b
  | mark a, mark b => a == b
  | span a as, span b bs => a == b && sameAll as bs
  | _, _ => false

/-- Whether two token lists are the same. -/
def sameAll : List Token → List Token → Bool
  | [], [] => true
  | a :: as, b :: bs => a.same b && sameAll as bs
  | _, _ => false

end

mutual

/-- Sameness of tokens is equality. -/
theorem same_iff : ∀ a b : Token, a.same b = true ↔ a = b
  | text a, b => by cases b <;> simp [same]
  | lineBreak, b => by cases b <;> simp [same]
  | pageBreak, b => by cases b <;> simp [same]
  | comment a, b => by cases b <;> simp [same]
  | mark a, b => by cases b <;> simp [same]
  | span a as, b => by cases b <;> simp [same, sameAll_iff as]

/-- Sameness of token lists is equality. -/
theorem sameAll_iff : ∀ as bs : List Token, sameAll as bs = true ↔ as = bs
  | [], bs => by cases bs <;> simp [sameAll]
  | a :: as, bs => by cases bs <;> simp [sameAll, same_iff a, sameAll_iff as]

end

instance : DecidableEq Token := fun a b => decidable_of_iff _ (same_iff a b)

end Token

/-- The text of a command: its tokens under the version of the block format. -/
structure TextBlock where
  version : UInt16 := 104
  tokens : List Token := []
  deriving DecidableEq, Repr, Inhabited

end NovelChart
