import NovelChart.Markup.Token
import NovelChart.Text.Case

/-!
Printing token trees. The script form can be compiled again: characters with a meaning are
protected, breaks end a line, and a comment takes a line of its own. The plain form shows only
what a reader sees: runs, breaks, the names of variables and of speakers.
-/

namespace NovelChart.Script

/-- Whether the output stands at the start of a line once a text was added to it. -/
def freshAfter (fresh : Bool) (added : List Char) : Bool :=
  match added.getLast? with
  | none => fresh
  | some c => c == '\n'

/-- A character of a run, protected. -/
def escapeChar (c : Char) : List Char :=
  if c = '\\' ∨ c = '<' ∨ c = '>' ∨ c = ';' then ['\\', c]
  else if c = '\n' then ['\\', 'n']
  else if c = '\r' then ['\\', 'r']
  else [c]

/-- Whether the character needs no quotes in a value. -/
def isPlainValueChar (c : Char) : Bool :=
  c.isAlphanum || c == '_' || c == '-' || c == '+' || c == '.' || c == '/' || c == ':'

/-- A character of a quoted value. -/
def quoteValueChar (c : Char) : List Char :=
  if c = '"' ∨ c = '\\' then ['\\', c] else [c]

/-- An attribute value, in quotes where it needs them. -/
def printValue (value : String) : List Char :=
  let cs := value.toList
  if !cs.isEmpty && cs.all isPlainValueChar then cs
  else '"' :: cs.flatMap quoteValueChar ++ ['"']

/-- An attribute behind the blank that divides it from what stands before. -/
def printAttr (attr : String × String) : List Char :=
  ' ' :: (Text.upper attr.1).toList ++ '=' :: printValue attr.2

/-- A tag up to its closing bracket. -/
def printTag (tag : Tag) : List Char :=
  '<' :: (Text.upper tag.name).toList ++ tag.attrs.flatMap printAttr ++ ['>']

/-- The tag that ends a span. -/
def printClose (tag : Tag) : List Char :=
  '<' :: '/' :: (Text.upper tag.name).toList ++ ['>']

/-- A break, which ends the line when more tokens follow. -/
def printBreak (name : List Char) (more : Bool) : List Char :=
  '<' :: name ++ '>' :: (if more then ['\n'] else [])

/-- A comment on a line of its own. -/
def printComment (fresh : Bool) (body : String) : List Char :=
  (if fresh then [] else ['\n']) ++
    ';' :: body.toList.filter (fun c => c != '\r' && c != '\n') ++ ['\n']

mutual

/-- The script form of a token. `fresh` tells whether the output stands at the start of a line, and
`more` whether the token has siblings behind it. -/
def printToken (fresh more : Bool) : Token → List Char
  | .text run => run.toList.flatMap escapeChar
  | .lineBreak => printBreak ['B', 'R'] more
  | .pageBreak => printBreak ['P', 'G'] more
  | .comment body => printComment fresh body
  | .mark tag => printTag tag
  | .span tag content => printTag tag ++ printTokens false content ++ printClose tag

/-- The script form of tokens. -/
def printTokens (fresh : Bool) : List Token → List Char
  | [] => []
  | t :: ts =>
    let text := printToken fresh (!ts.isEmpty) t
    text ++ printTokens (freshAfter fresh text) ts

end

/-- What a tag itself shows; none for one that shows its content. -/
def plainTag? (fresh : Bool) (tag : Tag) : Option (List Char) :=
  let name := Text.upper tag.name
  let shown := ((tag.attr? "NAME").getD "").toList
  if name = "PS" ∨ name = "CLR" then some ['\n']
  else if name = "VAR" then some shown
  else if name = "HISTCHAR" then some ((if fresh then [] else ['\n']) ++ shown ++ ['\n'])
  else none

mutual

/-- The plain form of a token. -/
def plainToken (fresh : Bool) : Token → List Char
  | .text run => run.toList
  | .lineBreak => ['\n']
  | .pageBreak => ['\n']
  | .comment _ => []
  | .mark tag => (plainTag? fresh tag).getD []
  | .span tag content => (plainTag? fresh tag).getD (plainTokens fresh content)

/-- The plain form of tokens. -/
def plainTokens (fresh : Bool) : List Token → List Char
  | [] => []
  | t :: ts =>
    let text := plainToken fresh t
    text ++ plainTokens (freshAfter fresh text) ts

end

/-- The script of tokens, or only their plain text. -/
def print (textOnly : Bool) (tokens : List Token) : String :=
  String.ofList (if textOnly then plainTokens true tokens else printTokens true tokens)

end NovelChart.Script
