import NovelChart.Markup.Tag
import NovelChart.Markup.Token
import NovelChart.Text.Alphanumeric

/-!
The inside of angle brackets in a script: a closing tag, or a name with attributes. Names are words
of letters, digits and underscores; a value is bare up to the next blank or stands in double quotes,
where a backslash protects a quote or another backslash.
-/

namespace NovelChart.Script

/-- What one pair of angle brackets stands for. -/
inductive Markup
  /-- A complete token. -/
  | token (t : Token)
  /-- The start of a span; its content follows. -/
  | opening (spec : TagSpec) (attrs : List (String × String))
  /-- The end of the span with this name. -/
  | closing (name : String)
  deriving DecidableEq, Repr

namespace Markup

/-- Whether the character may stand in a name. -/
def isWordChar (c : Char) : Bool :=
  Text.isAlphanumeric c || c == '_'

/-- The name at the front, blanks before it aside, and what follows it. -/
def word (cs : List Char) : List Char × List Char :=
  let cs := Text.dropBlanks cs
  (cs.takeWhile isWordChar, cs.dropWhile isWordChar)

/-- What follows a wanted character, blanks before it aside. -/
def eat? (wanted : Char) (cs : List Char) : Option (List Char) :=
  match Text.dropBlanks cs with
  | [] => none
  | c :: rest => if c = wanted then some rest else none

/-- A quoted value behind its opening quote, and what follows its closing quote. -/
def quotedValue : List Char → Except ScriptFault (List Char × List Char)
  | [] => .error .unterminatedValue
  | '"' :: rest => .ok ([], rest)
  | '\\' :: [] => .error .unterminatedValue
  | '\\' :: c :: rest =>
    if c = '"' ∨ c = '\\' then do
      let (value, rest) ← quotedValue rest
      return (c :: value, rest)
    else .error (.unknownValueEscape c)
  | c :: rest => do
    let (value, rest) ← quotedValue rest
    return (c :: value, rest)

/-- Whether the character may stand in a bare value. -/
def isBareChar (c : Char) : Bool :=
  !Text.isBlank c && c != '"'

/-- The value at the front, blanks before it aside, and what follows it. -/
def value (cs : List Char) : Except ScriptFault (List Char × List Char) :=
  match Text.dropBlanks cs with
  | '"' :: rest => quotedValue rest
  | cs =>
    let bare := cs.takeWhile isBareChar
    if bare.isEmpty then .error .missingValue else .ok (bare, cs.dropWhile isBareChar)

/-- What follows a quoted value is shorter than what it was read from. -/
theorem length_quotedValue {cs v rest : List Char} (read : quotedValue cs = .ok (v, rest)) :
    rest.length < cs.length := by
  fun_induction quotedValue cs generalizing v rest with
  | case1 => cases read
  | case2 r => cases read; simp
  | case3 => cases read
  | case4 c r escaped ih =>
    cases inner : quotedValue r with
    | error f => simp [inner, bind, Except.bind] at read
    | ok p =>
      obtain ⟨w, r'⟩ := p
      simp only [inner, bind, Except.bind, pure, Except.pure, Except.ok.injEq, Prod.mk.injEq]
        at read
      have shorter := ih inner
      obtain ⟨-, rfl⟩ := read
      simp only [List.length_cons]
      omega
  | case5 => cases read
  | case6 c r _ _ _ ih =>
    cases inner : quotedValue r with
    | error f => simp [inner, bind, Except.bind] at read
    | ok p =>
      obtain ⟨w, r'⟩ := p
      simp only [inner, bind, Except.bind, pure, Except.pure, Except.ok.injEq, Prod.mk.injEq]
        at read
      have shorter := ih inner
      obtain ⟨-, rfl⟩ := read
      simp only [List.length_cons]
      omega

/-- What follows a value is no longer than what it was read from. -/
theorem length_value_le {cs v rest : List Char} (read : value cs = .ok (v, rest)) :
    rest.length ≤ cs.length := by
  have fewer := Text.length_dropBlanks_le cs
  unfold value at read
  split at read
  · next r eq =>
    have := length_quotedValue read
    rw [eq, List.length_cons] at fewer
    omega
  · next cs' _ =>
    simp only at read
    split at read
    · cases read
    · cases read
      exact Nat.le_trans (List.dropWhile_sublist _).length_le fewer

/-- What follows a wanted character is shorter than what it was read from. -/
theorem length_eat? {wanted : Char} {cs rest : List Char} (read : eat? wanted cs = some rest) :
    rest.length < cs.length := by
  have fewer := Text.length_dropBlanks_le cs
  unfold eat? at read
  split at read
  · cases read
  · next c r eq =>
    split at read
    · cases read
      rw [eq, List.length_cons] at fewer
      omega
    · cases read

/-- What follows a name is no longer than what it was read from. -/
theorem length_word_le (cs : List Char) : (word cs).2.length ≤ cs.length :=
  Nat.le_trans (List.dropWhile_sublist _).length_le (Text.length_dropBlanks_le cs)

/-- All attributes up to the end, their names in upper case. -/
def attributes (cs : List Char) : Except ScriptFault (List (String × String)) :=
  if (Text.dropBlanks cs).isEmpty then .ok []
  else if (word cs).1.isEmpty then .error .expectedAttribute
  else
    match _eaten : eat? '=' (word cs).2 with
    | none => .error .expectedAttribute
    | some rest =>
      match _read : value rest with
      | .error f => .error f
      | .ok (v, rest') => do
        let more ← attributes rest'
        return (Text.upper (String.ofList (word cs).1), String.ofList v) :: more
termination_by cs.length
decreasing_by
  have := length_value_le _read
  have := length_eat? _eaten
  have := length_word_le cs
  omega

/-- The markup of a name with attributes. -/
def ofTag (name : String) (attrs : List (String × String)) :
    Except (Option String × ScriptFault) Markup :=
  if name = "BR" ∨ name = "PG" then
    if attrs.isEmpty then .ok (.token (if name = "BR" then .lineBreak else .pageBreak))
    else .error (some name, .noAttributes)
  else
    match TagSpec.ofName? name with
    | none => .error (some name, .unsupported)
    | some spec =>
      match spec.normalize attrs with
      | .error f => .error (some spec.name, .attr f)
      | .ok attrs =>
        if spec.paired then .ok (.opening spec attrs) else .ok (.token (.mark ⟨spec.name, attrs⟩))

/-- The markup that the inside of angle brackets spells; a fault comes with the tag that it
concerns. -/
def parse (body : List Char) : Except (Option String × ScriptFault) Markup :=
  match eat? '/' body with
  | some rest =>
    let (name, rest) := word rest
    if name.isEmpty || !(Text.dropBlanks rest).isEmpty then
      .error (none, .malformedClose (String.ofList body))
    else .ok (.closing (Text.upper (String.ofList name)))
  | none =>
    let (name, rest) := word body
    if name.isEmpty then .error (none, .malformedTag (String.ofList body))
    else
      let name := Text.upper (String.ofList name)
      match attributes rest with
      | .error f => .error (some name, f)
      | .ok attrs => ofTag name attrs

end Markup

end NovelChart.Script
