import NovelChart.Proofs.Markup
import NovelChart.Script.Compile

/-!
# Scripts with other line ends

A script may end its lines with a line feed alone, or with a return in front of it. Between
characters of text a line end is layout, and behind a semicolon it ends a comment; between angle
brackets it is a blank like others, unless it stands inside quotes. There it belongs to the value of
an attribute, and is the only thing that a change of line ends can show in the result. Numbers are
read without the blanks around them, and words have no line ends at all, so even quotes keep only
those in values that are free text.

## Main definitions

* `Text.withReturns`, `Text.crlf`: characters, or a text, with a return in front of every line feed
* `Token.withReturns`: a token whose attributes have these texts for values
* `Token.valuesAll`: the values of all attributes, at any depth
* `Script.Follows`: characters are scanned like others, wherever the scanner is

## Main results

* `Script.Markup.parse_withReturns`: the inside of angle brackets is read as before
* `Script.follows_withReturns`: a script is scanned into the same pieces, from every place on
* `Script.compile_crlf`: a script whose attributes have no line ends is compiled to the same tokens
-/

namespace NovelChart

/-! ### Texts -/

namespace Text

variable {c : Char} {cs : List Char} {p : Char → Bool}

/-- Characters with a return in front of every line feed. -/
def withReturns (cs : List Char) : List Char :=
  cs.flatMap fun c => if c = '\n' then ['\r', '\n'] else [c]

/-- A text with a return in front of every line feed. -/
def crlf (s : String) : String :=
  String.ofList (withReturns s.toList)

/-- Attributes whose values have a return in front of every line feed. -/
def crlfValues (attrs : List (String × String)) : List (String × String) :=
  attrs.map fun attr => (attr.1, crlf attr.2)

@[simp] theorem withReturns_nil : withReturns [] = [] :=
  rfl

@[simp] theorem withReturns_feed (cs : List Char) :
    withReturns ('\n' :: cs) = '\r' :: '\n' :: withReturns cs :=
  rfl

theorem withReturns_cons (other : c ≠ '\n') (cs : List Char) :
    withReturns (c :: cs) = c :: withReturns cs := by
  rw [withReturns, List.flatMap_cons, if_neg other]
  rfl

theorem withReturns_append (cs ds : List Char) :
    withReturns (cs ++ ds) = withReturns cs ++ withReturns ds :=
  List.flatMap_append

theorem withReturns_eq_self (flat : '\n' ∉ cs) : withReturns cs = cs := by
  induction cs with
  | nil => rfl
  | cons c cs ih =>
    obtain ⟨other, others⟩ := not_or.mp (mt List.mem_cons.mpr flat)
    rw [withReturns_cons (Ne.symm other), ih others]

@[simp] theorem isEmpty_withReturns (cs : List Char) : (withReturns cs).isEmpty = cs.isEmpty := by
  cases cs with
  | nil => rfl
  | cons c cs =>
    by_cases feed : c = '\n'
    · rw [feed]
      rfl
    · rw [withReturns_cons feed]
      rfl

theorem crlf_eq_self {s : String} (flat : '\n' ∉ s.toList) : crlf s = s := by
  rw [crlf, withReturns_eq_self flat, String.ofList_toList]

theorem crlf_ofList (cs : List Char) :
    crlf (String.ofList cs) = String.ofList (withReturns cs) := by
  rw [crlf, String.toList_ofList]

theorem crlfValues_cons (key value : String) (attrs : List (String × String)) :
    crlfValues ((key, value) :: attrs) = (key, crlf value) :: crlfValues attrs :=
  rfl

theorem crlfValues_eq_self {attrs : List (String × String)}
    (flat : ∀ value ∈ attrs.map Prod.snd, '\n' ∉ value.toList) : crlfValues attrs = attrs := by
  induction attrs with
  | nil => rfl
  | cons attr attrs ih =>
    obtain ⟨here, others⟩ := List.forall_mem_cons.mp flat
    rw [crlfValues_cons, crlf_eq_self here, ih others]

/-! A class of characters with both line ends or none is passed over as before. -/

theorem dropWhile_withReturns (both : p '\r' = p '\n') (cs : List Char) :
    (withReturns cs).dropWhile p = withReturns (cs.dropWhile p) := by
  induction cs with
  | nil => rfl
  | cons c cs ih =>
    by_cases feed : c = '\n'
    · subst feed
      cases ends : p '\n' with
      | true => simp [both, ends, ih]
      | false => simp [both, ends]
    · rw [withReturns_cons feed, List.dropWhile_cons, List.dropWhile_cons]
      split
      · exact ih
      · rw [withReturns_cons feed]

theorem takeWhile_withReturns (feed : p '\n' = false) (ret : p '\r' = false) (cs : List Char) :
    (withReturns cs).takeWhile p = cs.takeWhile p := by
  induction cs with
  | nil => rfl
  | cons c cs ih =>
    by_cases same : c = '\n'
    · subst same
      simp [feed, ret]
    · rw [withReturns_cons same, List.takeWhile_cons, List.takeWhile_cons, ih]

theorem dropBlanks_withReturns (cs : List Char) :
    dropBlanks (withReturns cs) = withReturns (dropBlanks cs) :=
  dropWhile_withReturns (by decide) cs

/-- What is left without blanks does not begin with a line end. -/
theorem ne_feed_of_dropBlanks {rest : List Char} (left : dropBlanks cs = c :: rest) : c ≠ '\n' := by
  rintro rfl
  have dense := List.head?_dropWhile_not isBlank cs
  rw [← dropBlanks, left] at dense
  cases dense

theorem trim_withReturns (cs : List Char) : trim (withReturns cs) = withReturns (trim cs) := by
  have back : ∀ cs, dropBlanksEnd (withReturns cs) = withReturns (dropBlanksEnd cs) := by
    intro cs
    induction cs using List.reverseRecOn with
    | nil => rfl
    | append_singleton cs c ih =>
      rw [withReturns_append, dropBlanksEnd_concat]
      by_cases feed : c = '\n'
      · -- Both characters of a line end are blank.
        subst feed
        have ends : withReturns ['\n'] = ['\r'] ++ ['\n'] := rfl
        rw [ends, ← List.append_assoc, dropBlanksEnd_concat, dropBlanksEnd_concat, ih]
        rfl
      · rw [withReturns_cons feed, withReturns_nil, dropBlanksEnd_concat, ih]
        split
        · rfl
        · rw [withReturns_append, withReturns_cons feed, withReturns_nil]
  rw [trim, trim, dropBlanks_withReturns, back]

/-- A numeral has no line ends. -/
theorem not_mem_of_readInt32 {n : Int32} (read : readInt32 cs = some n) : '\n' ∉ cs := by
  have digits : ∀ {limit n cs}, readDigits limit 0 cs = .ok n → '\n' ∉ cs :=
    fun read member => absurd (isDigit_of_readDigits read _ member) (by decide)
  rw [readInt32.eq_def] at read
  split at read
  · cases read
  · next cs _ =>
    -- Behind a minus sign there are digits only.
    split at read
    · next m read' => simpa using digits read'
    · cases read
  · -- Without one, there may be a plus sign in front of the digits.
    split at read
    · next m read' =>
      rw [readNat.eq_def] at read'
      split at read'
      · cases read'
      · cases read'
      · simpa using digits read'
      · exact digits read'
    · cases read

end Text

/-! ### Between angle brackets -/

namespace Script.Markup

open Text (withReturns)

variable {cs v rest : List Char}

theorem word_withReturns (cs : List Char) :
    word (withReturns cs) = ((word cs).1, withReturns (word cs).2) := by
  rw [word, word, Text.dropBlanks_withReturns, Text.takeWhile_withReturns (by decide) (by decide),
    Text.dropWhile_withReturns (by decide)]

theorem eat?_withReturns {wanted : Char} (cs : List Char) :
    eat? wanted (withReturns cs) = (eat? wanted cs).map withReturns := by
  rw [eat?, eat?, Text.dropBlanks_withReturns]
  cases left : Text.dropBlanks cs with
  | nil => rfl
  | cons c rest =>
    rw [Text.withReturns_cons (Text.ne_feed_of_dropBlanks left)]
    dsimp only
    split
    · rfl
    · rfl

/-- A value in quotes keeps its line ends. -/
theorem quotedValue_withReturns (read : quotedValue cs = .ok (v, rest)) :
    quotedValue (withReturns cs) = .ok (withReturns v, withReturns rest) := by
  fun_induction quotedValue cs generalizing v rest with
  | case1 => cases read
  | case2 r =>
    cases read
    rfl
  | case3 => cases read
  | case4 c r escaped ih =>
    -- A protected character is a quote or a backslash, and stays alone.
    simp only [bind_eq_ok, pure_eq_ok, Prod.exists] at read
    obtain ⟨value, more, inner, same⟩ := read
    cases same
    have other : c ≠ '\n' := by
      rintro rfl
      simp at escaped
    rw [Text.withReturns_cons (by decide), Text.withReturns_cons other, quotedValue_escape escaped,
      ih inner, Text.withReturns_cons other]
    rfl
  | case5 => cases read
  | case6 c r quote alone paired ih =>
    have backslash : c ≠ '\\' := by
      rintro rfl
      cases r with
      | nil => exact alone rfl rfl
      | cons d r => exact paired d r rfl rfl
    simp only [bind_eq_ok, pure_eq_ok, Prod.exists] at read
    obtain ⟨value, more, inner, same⟩ := read
    cases same
    by_cases feed : c = '\n'
    · -- In its longer form, a line end is two characters that stand for themselves.
      subst feed
      rw [Text.withReturns_feed, quotedValue_plain (by decide) (by decide),
        quotedValue_plain (by decide) (by decide), ih inner]
      rfl
    · rw [Text.withReturns_cons feed, quotedValue_plain quote backslash, ih inner,
        Text.withReturns_cons feed]
      rfl

/-- A value that does not begin with a quote is bare. -/
theorem value_of_ne_quote (bare : ∀ r, Text.dropBlanks cs ≠ '"' :: r) :
    value cs = if ((Text.dropBlanks cs).takeWhile isBareChar).isEmpty then .error .missingValue
      else .ok ((Text.dropBlanks cs).takeWhile isBareChar,
        (Text.dropBlanks cs).dropWhile isBareChar) := by
  rw [value]
  split
  · next r left => exact absurd left (bare r)
  · rfl

theorem value_withReturns (read : value cs = .ok (v, rest)) :
    value (withReturns cs) = .ok (withReturns v, withReturns rest) := by
  by_cases quoted : ∃ r, Text.dropBlanks cs = '"' :: r
  · obtain ⟨r, left⟩ := quoted
    rw [value, left] at read
    rw [value, Text.dropBlanks_withReturns, left, Text.withReturns_cons (by decide)]
    exact quotedValue_withReturns read
  · have bare := not_exists.mp quoted
    -- A return in front makes no quote of what was none.
    have bare' : ∀ r, Text.dropBlanks (withReturns cs) ≠ '"' :: r := by
      intro r same
      rw [Text.dropBlanks_withReturns] at same
      cases left : Text.dropBlanks cs with
      | nil =>
        rw [left] at same
        cases same
      | cons c r' =>
        rw [left, Text.withReturns_cons (Text.ne_feed_of_dropBlanks left)] at same
        obtain ⟨rfl, _⟩ := List.cons.inj same
        exact bare r' left
    rw [value_of_ne_quote bare, refuse_eq_ok] at read
    obtain ⟨filled, same⟩ := read
    cases same
    have flat : '\n' ∉ (Text.dropBlanks cs).takeWhile isBareChar := fun member =>
      absurd (List.all_eq_true.mp List.all_takeWhile _ member) (by decide)
    rw [value_of_ne_quote bare', Text.dropBlanks_withReturns,
      Text.takeWhile_withReturns (by decide) (by decide), if_neg filled,
      Text.dropWhile_withReturns (by decide), Text.withReturns_eq_self flat]

/-- Attributes are read as before, up to the line ends in their values. -/
theorem attributes_withReturns {attrs : List (String × String)} (read : attributes cs = .ok attrs) :
    attributes (withReturns cs) = .ok (Text.crlfValues attrs) := by
  fun_induction attributes cs generalizing attrs with
  | case1 cs blank =>
    cases read
    rw [attributes, Text.dropBlanks_withReturns, Text.isEmpty_withReturns, if_pos blank]
    rfl
  | case2 => cases read
  | case3 => cases read
  | case4 => cases read
  | case5 cs filled named rest eaten v rest' found ih =>
    -- A name, an equals sign and a value are found in the same way, and then the rest.
    simp only [bind_eq_ok, pure_eq_ok] at read
    obtain ⟨more, inner, rfl⟩ := read
    have filled' : (Text.dropBlanks (withReturns cs)).isEmpty = false := by
      rw [Text.dropBlanks_withReturns, Text.isEmpty_withReturns]
      exact Bool.eq_false_iff.mpr filled
    have nonempty : (word cs).1 ≠ [] := by simpa using named
    have eaten' : eat? '=' (withReturns (word cs).2) = some (withReturns rest) := by
      rw [eat?_withReturns, eaten, Option.map_some]
    rw [attributes_step filled' (word_withReturns cs) nonempty eaten' (value_withReturns found),
      ih inner, Text.crlfValues_cons, Text.crlf_ofList]
    rfl

end Script.Markup

/-! ### Tags -/

/-- The words that an attribute may have for its value are made of letters. -/
theorem TagSpec.isLower_words : ∀ spec ∈ table, ∀ a ∈ spec.attrs, ∀ word ∈ a.kind.words,
    ∀ x ∈ word.toList, x.toLower.isLower = true := by
  have all : ∀ spec ∈ table, ∀ a ∈ spec.attrs, ∀ word ∈ a.kind.words,
      word.toList.all (fun x => x.toLower.isLower) = true := by
    decide
  intro spec member a attr word listed
  exact List.all_eq_true.mp (all spec member a attr word listed)

/-- A canonical value keeps its line ends, and only free text has any. -/
theorem AttrSpec.canonical_crlf {spec : TagSpec} {a : AttrSpec} {key value value' : String}
    (member : spec ∈ TagSpec.table) (attr : a ∈ spec.attrs)
    (spelled : a.canonical key value = .ok value') :
    a.canonical key (Text.crlf value) = .ok (Text.crlf value') := by
  obtain ⟨name, kind⟩ := a
  cases kind with
  | str =>
    cases spelled
    rfl
  | int =>
    cases read : int? value with
    | none => simp [canonical, read] at spelled
    | some n =>
      have number : value' = Text.int32 n := by simpa [canonical, read, eq_comm] using spelled
      have flat : '\n' ∉ (Text.int32 n).toList := fun feed =>
        absurd (Text.not_isBlank_int32 n _ feed) (by decide)
      -- What is left without the blanks around it has no line ends.
      have again : int? (Text.crlf value) = some n := by
        rw [int?] at read
        rw [int?, Text.crlf, String.toList_ofList, Text.trim_withReturns,
          Text.withReturns_eq_self (Text.not_mem_of_readInt32 read), read]
      rw [number, Text.crlf_eq_self flat]
      simp [canonical, again]
  | word words =>
    cases found : words.find? fun word => Text.sameLetters word value with
    | none => simp [canonical, found] at spelled
    | some word =>
      have listed : value' = word := by simpa [canonical, found, eq_comm] using spelled
      have letters :=
        TagSpec.isLower_words spec member _ attr word (List.mem_of_find?_eq_some found)
      obtain ⟨same, _⟩ := List.find?_eq_some_iff_append.mp found
      -- A line end is no letter, so it is neither in the word nor in its spelling.
      have flat : '\n' ∉ word.toList := fun feed => absurd (letters _ feed) (by decide)
      have flat' : '\n' ∉ value.toList := fun feed =>
        absurd (Text.isLower_of_sameLetters same letters feed) (by decide)
      rw [listed, Text.crlf_eq_self flat, Text.crlf_eq_self flat']
      simp [canonical, found]

namespace TagSpec

open AttrEntry

variable {spec : TagSpec} {attrs out : List (String × String)}

theorem lookup_map_snd (f : String → String) (values : List (Nat × String)) (i : Nat) :
    (values.map fun x => (x.1, f x.2)).lookup i = (values.lookup i).map f := by
  induction values with
  | nil => rfl
  | cons x values ih =>
    rw [List.map_cons, List.lookup_cons, List.lookup_cons, ih]
    split
    · rfl
    · rfl

theorem named_entries_map (f : String → String) (values : List (Nat × String)) :
    named (spec.entries (values.map fun x => (x.1, f x.2))) =
      (named (spec.entries values)).map fun attr => (attr.1, f attr.2) := by
  simp only [named, entries, List.map_filterMap, lookup_map_snd, Option.map_map]
  rfl

/-- Attributes have the same canonical form, up to the line ends in their values. -/
theorem normalize_crlf (member : spec ∈ table) (normal : spec.normalize attrs = .ok out) :
    spec.normalize (Text.crlfValues attrs) = .ok (Text.crlfValues out) := by
  obtain ⟨located, all, distinct, rfl⟩ := normalize_eq_ok.mp normal
  let located' : List AttrEntry := located.map fun entry => (entry.1, Text.crlf entry.2)
  have places : placed located' = (placed located).map fun x => (x.1, Text.crlf x.2) := by
    simp only [located', placed, List.map_map]
    rfl
  refine normalize_eq_ok.mpr ⟨located', ?_, ?_, ?_⟩
  · rw [Text.crlfValues, List.forall₂_map_left_iff, List.forall₂_map_right_iff]
    refine all.imp fun attr entry found => ⟨found.1, ?_⟩
    have inside := List.fst_mem_of_mem_zipIdx (List.mem_of_find?_eq_some found.1)
    exact AttrSpec.canonical_crlf member inside found.2
  · rw [places, List.map_map]
    exact distinct
  · rw [places, ← List.map_reverse, named_entries_map]
    rfl

end TagSpec

/-! ### Tokens -/

/-- A tag whose values have a return in front of every line feed. -/
def Tag.withReturns (tag : Tag) : Tag :=
  { tag with attrs := Text.crlfValues tag.attrs }

theorem Tag.withReturns_eq_self {tag : Tag}
    (flat : ∀ value ∈ tag.attrs.map Prod.snd, '\n' ∉ value.toList) : tag.withReturns = tag := by
  rw [withReturns, Text.crlfValues_eq_self flat]

namespace Token

mutual

/-- A token whose attributes have values with a return in front of every line feed. Runs of text
and comments stay as they are. -/
def withReturns : Token → Token
  | mark tag => mark tag.withReturns
  | span tag content => span tag.withReturns (withReturnsAll content)
  | t => t

/-- Tokens whose attributes have values with a return in front of every line feed. -/
def withReturnsAll : List Token → List Token
  | [] => []
  | t :: ts => t.withReturns :: withReturnsAll ts

end

mutual

/-- The values of the attributes of a token, and of all that it encloses. -/
def values : Token → List String
  | mark tag => tag.attrs.map Prod.snd
  | span tag content => tag.attrs.map Prod.snd ++ valuesAll content
  | _ => []

/-- The values of all attributes of tokens, at any depth. -/
def valuesAll : List Token → List String
  | [] => []
  | t :: ts => t.values ++ valuesAll ts

end

theorem withReturnsAll_eq_map (ts : List Token) : withReturnsAll ts = ts.map withReturns := by
  induction ts with
  | nil => rfl
  | cons t ts ih => rw [withReturnsAll, ih, List.map_cons]

mutual

theorem withReturns_eq_self : ∀ t : Token, (∀ value ∈ t.values, '\n' ∉ value.toList) →
    t.withReturns = t
  | text _, _ => rfl
  | lineBreak, _ => rfl
  | pageBreak, _ => rfl
  | comment _, _ => rfl
  | mark tag, flat => by rw [withReturns, Tag.withReturns_eq_self flat]
  | span tag content, flat => by
    obtain ⟨here, inside⟩ := List.forall_mem_append.mp flat
    rw [withReturns, Tag.withReturns_eq_self here, withReturnsAll_eq_self content inside]

/-- Tokens without line ends in their attributes stay as they are. -/
theorem withReturnsAll_eq_self : ∀ ts : List Token,
    (∀ value ∈ valuesAll ts, '\n' ∉ value.toList) → withReturnsAll ts = ts
  | [], _ => rfl
  | t :: ts, flat => by
    obtain ⟨here, behind⟩ := List.forall_mem_append.mp flat
    rw [withReturnsAll, withReturns_eq_self t here, withReturnsAll_eq_self ts behind]

end

end Token

/-! ### Markup -/

namespace Script

/-- Markup whose attributes have values with a return in front of every line feed. -/
def Markup.withReturns : Markup → Markup
  | .token t => .token t.withReturns
  | .opening spec attrs => .opening spec (Text.crlfValues attrs)
  | .closing name => .closing name

theorem Markup.ofTag_crlf {name : String} {attrs : List (String × String)} {m : Markup}
    (made : ofTag name attrs = .ok m) :
    ofTag name (Text.crlfValues attrs) = .ok m.withReturns := by
  have empty : (Text.crlfValues attrs).isEmpty = attrs.isEmpty := List.isEmpty_map
  rw [ofTag] at made ⊢
  rw [empty]
  split at made
  · next named =>
    rw [if_pos named]
    split at made
    · next none =>
      cases made
      rw [if_pos none]
      split
      · rfl
      · rfl
    · cases made
  · next other =>
    rw [if_neg other]
    split at made
    · cases made
    · next spec found =>
      split at made
      · cases made
      · next out normal =>
        rw [TagSpec.normalize_crlf (TagSpec.mem_table_of_ofName? found) normal]
        dsimp only
        split at made
        · next paired =>
          cases made
          rw [if_pos paired]
          rfl
        · next single =>
          cases made
          rw [if_neg single]
          rfl

/-- The inside of angle brackets is read as before, up to the line ends in values. -/
theorem Markup.parse_withReturns {body : List Char} {m : Markup} (parsed : parse body = .ok m) :
    parse (Text.withReturns body) = .ok m.withReturns := by
  rw [parse] at parsed ⊢
  rw [eat?_withReturns]
  cases eaten : eat? '/' body with
  | some rest =>
    simp only [eaten, refuse_eq_ok] at parsed
    obtain ⟨named, made⟩ := parsed
    cases made
    simp only [Option.map_some, word_withReturns, Text.dropBlanks_withReturns,
      Text.isEmpty_withReturns, if_neg named]
    rfl
  | none =>
    simp only [eaten, refuse_eq_ok] at parsed
    obtain ⟨named, made⟩ := parsed
    simp only [Option.map_none, word_withReturns, if_neg named]
    split at made
    · cases made
    · next attrs read =>
      rw [attributes_withReturns read]
      exact ofTag_crlf made

/-! ### Scanning -/

/-- A piece whose attributes have values with a return in front of every line feed. -/
def Piece.withReturns : Piece → Piece
  | .markup line m => .markup line m.withReturns
  | p => p

/-- What was scanned, with a return in front of every line feed in the values of attributes. -/
def Scanned.withReturns (s : Scanned) : Scanned :=
  { s with pieces := s.pieces.map Piece.withReturns }

/-- Characters that are held in reverse, with a return in front of every line feed. -/
def heldReturns (body : List Char) : List Char :=
  (Text.withReturns body.reverse).reverse

theorem heldReturns_feed (body : List Char) :
    heldReturns ('\n' :: body) = '\n' :: '\r' :: heldReturns body := by
  simp [heldReturns, Text.withReturns_append]

theorem heldReturns_cons {c : Char} (other : c ≠ '\n') (body : List Char) :
    heldReturns (c :: body) = c :: heldReturns body := by
  simp [heldReturns, Text.withReturns_append, Text.withReturns_cons other]

/-- Where the scanner is when there was a return in front of every line feed so far. -/
def Mode.withReturns : Mode → Mode
  | .text fresh => .text fresh
  | .comment body => .comment body
  | .escape => .escape
  | .tag start body quoted => .tag start (heldReturns body) quoted
  | .tagEscape start body => .tagEscape start (heldReturns body)

/-- The second characters are scanned like the first, wherever the scanner is, as long as that goes
without a fault. The line numbers are the same as well, since a return does not count as a line. -/
def Follows (cs cs' : List Char) : Prop :=
  ∀ mode line last, (scanFrom mode line cs).ending = .finish last →
    scanFrom mode.withReturns line cs' = (scanFrom mode line cs).withReturns

variable {cs cs' : List Char}

theorem follows_nil : Follows [] [] := by
  intro mode line last ends
  cases mode with
  | text fresh => rfl
  | comment body => rfl
  | escape => cases ends
  | tag start body quoted => cases ends
  | tagEscape start body => cases ends

/-- A line end in its longer form. In text, and behind a comment, the return leaves no trace. -/
theorem Follows.feed (behind : Follows cs cs') : Follows ('\n' :: cs) ('\r' :: '\n' :: cs') := by
  intro mode line last ends
  cases mode with
  | text fresh => exact behind (.text true) (line + 1) last ends
  | comment body =>
    exact congrArg (Scanned.cons _) (behind (.text true) (line + 1) last ends)
  | escape =>
    -- A line end cannot be protected.
    cases ends
  | tag start body quoted =>
    have rest := behind (.tag start ('\n' :: body) quoted) (line + 1) last ends
    rw [Mode.withReturns, heldReturns_feed] at rest
    exact rest
  | tagEscape start body =>
    have rest := behind (.tag start ('\n' :: body) true) (line + 1) last ends
    rw [Mode.withReturns, heldReturns_feed] at rest
    exact rest

/-- Any other character. -/
theorem Follows.cons {c : Char} (other : c ≠ '\n') (behind : Follows cs cs') :
    Follows (c :: cs) (c :: cs') := by
  intro mode line last ends
  cases mode with
  | text fresh =>
    rw [scanFrom, if_neg other] at ends
    rw [Mode.withReturns, scanFrom, scanFrom, if_neg other, if_neg other]
    split_ifs at ends ⊢
    · exact behind (.text fresh) line last ends
    · exact behind (.comment []) line last ends
    · exact behind .escape line last ends
    · exact behind (.tag line [] false) line last ends
    · exact congrArg (Scanned.cons _) (behind (.text false) line last ends)
  | comment body =>
    rw [scanFrom, if_neg other] at ends
    rw [Mode.withReturns, scanFrom, scanFrom, if_neg other, if_neg other]
    split_ifs at ends ⊢
    · exact behind (.comment body) line last ends
    · exact behind (.comment (c :: body)) line last ends
  | escape =>
    rw [scanFrom] at ends
    rw [Mode.withReturns, scanFrom, scanFrom]
    split at ends
    · exact congrArg (Scanned.cons _) (behind (.text false) line last ends)
    · cases ends
  | tag start body quoted =>
    rw [scanFrom] at ends
    rw [Mode.withReturns, scanFrom, scanFrom]
    by_cases closes : c = '>' ∧ ¬quoted = true
    · -- The bracket closes, and what it held is read as before.
      rw [if_pos closes] at ends ⊢
      rw [if_pos closes]
      cases parsed : Markup.parse body.reverse with
      | error fault =>
        rw [parsed] at ends
        cases ends
      | ok m =>
        rw [parsed] at ends
        rw [heldReturns, List.reverse_reverse, Markup.parse_withReturns parsed]
        exact congrArg (Scanned.cons _) (behind (.text false) line last ends)
    · rw [if_neg closes] at ends ⊢
      rw [if_neg closes]
      have held := heldReturns_cons other body
      split at ends
      · next escapes =>
        have rest := behind (.tagEscape start (c :: body)) line last ends
        rw [Mode.withReturns, held] at rest
        rw [if_pos escapes, if_pos escapes]
        exact rest
      · next plain =>
        have rest := behind (.tag start (c :: body) _) _ last ends
        rw [Mode.withReturns, held] at rest
        rw [if_neg plain, if_neg plain]
        exact rest
  | tagEscape start body =>
    have rest := behind (.tag start (c :: body) true) (lineAfter line c) last ends
    rw [Mode.withReturns, heldReturns_cons other] at rest
    exact rest

/-- A script is scanned into the same pieces, from every place on. -/
theorem follows_withReturns (cs : List Char) : Follows cs (Text.withReturns cs) := by
  induction cs with
  | nil => exact follows_nil
  | cons c cs ih =>
    by_cases feed : c = '\n'
    · rw [feed, Text.withReturns_feed]
      exact ih.feed
    · rw [Text.withReturns_cons feed]
      exact ih.cons feed

/-! ### Building -/

/-- An open span whose attributes, and those before it, have the longer line ends. -/
def Frame.withReturns (frame : Frame) : Frame :=
  ⟨frame.tag.withReturns, frame.before.map Token.withReturns⟩

namespace Builder

variable {b : Builder} {keep : Bool}

/-- A builder of a tree whose attributes have the longer line ends. -/
def withReturns (b : Builder) : Builder :=
  ⟨b.stack.map Frame.withReturns, b.tokens.map Token.withReturns, b.run⟩

theorem flush_withReturns (b : Builder) : b.withReturns.flush = b.flush.withReturns := by
  rw [flush, flush]
  by_cases empty : b.run.isEmpty = true
  · rw [if_pos empty]
    exact if_pos empty
  · rw [if_neg empty]
    exact if_neg empty

theorem push_withReturns (b : Builder) (t : Token) :
    b.withReturns.push t.withReturns = (b.push t).withReturns := by
  rw [push, push, flush_withReturns]
  rfl

theorem enter_withReturns (b : Builder) (tag : Tag) :
    b.withReturns.enter tag.withReturns = (b.enter tag).withReturns := by
  rw [enter, enter, flush_withReturns]
  rfl

/-- One piece is taken in as before, or refused for the same fault. -/
theorem step_withReturns (b : Builder) (p : Piece) :
    b.withReturns.step keep p.withReturns = (b.step keep p).map withReturns := by
  cases p with
  | char c => rfl
  | comment body =>
    cases keep with
    | true => exact congrArg Except.ok (push_withReturns b (.comment body))
    | false => rfl
  | markup line m =>
    cases m with
    | token t => exact congrArg Except.ok (push_withReturns b t)
    | opening spec attrs =>
      have depth : b.withReturns.stack.length = b.stack.length := List.length_map ..
      rw [Piece.withReturns, Markup.withReturns, step, step, depth]
      split
      · rfl
      · exact congrArg Except.ok (enter_withReturns b ⟨spec.name, attrs⟩)
    | closing name =>
      rw [Piece.withReturns, Markup.withReturns, step, step, flush_withReturns]
      cases top : b.stack with
      | nil =>
        rw [withReturns, top]
        rfl
      | cons frame stack =>
        have top' : b.withReturns.stack = frame.withReturns :: stack.map Frame.withReturns := by
          rw [withReturns, top]
          rfl
        -- The open span has kept its name, and encloses what it did before.
        have span : (Token.span frame.tag b.flush.tokens.reverse).withReturns =
            .span frame.tag.withReturns b.flush.withReturns.tokens.reverse := by
          rw [Token.withReturns, Token.withReturnsAll_eq_map, List.map_reverse]
          rfl
        have named : frame.withReturns.tag.name = frame.tag.name := rfl
        rw [top']
        dsimp only
        rw [named]
        split
        · simp only [Except.map, withReturns, List.map_cons, span]
          rfl
        · rfl

/-- A run of pieces is taken in as before, or refused for the same fault. -/
theorem foldlM_withReturns (b : Builder) (pieces : List Piece) :
    (pieces.map Piece.withReturns).foldlM (step keep) b.withReturns =
      (pieces.foldlM (step keep) b).map withReturns := by
  induction pieces generalizing b with
  | nil => rfl
  | cons p pieces ih =>
    rw [List.map_cons, List.foldlM_cons, List.foldlM_cons, step_withReturns]
    cases b.step keep p with
    | error cause => rfl
    | ok next => exact ih next

theorem finish_withReturns (b : Builder) (ending : Ending) :
    b.withReturns.finish ending = (b.finish ending).map Token.withReturnsAll := by
  cases ending with
  | fault cause => rfl
  | finish line =>
    rw [finish, finish, flush_withReturns]
    cases top : b.stack with
    | nil =>
      rw [withReturns, top]
      simp only [List.map_nil, Except.map, withReturns, Token.withReturnsAll_eq_map,
        List.map_reverse]
    | cons frame stack =>
      rw [withReturns, top]
      rfl

end Builder

/-- A script with the longer line ends is compiled to the same tokens, up to the line ends in the
values of attributes. -/
theorem compile_withReturns {keep : Bool} {source : String} {tokens : List Token}
    (compiled : compile keep source = .ok tokens) :
    compile keep (Text.crlf source) = .ok (Token.withReturnsAll tokens) := by
  rw [compile, build, bind_eq_ok] at compiled
  obtain ⟨b, built, finished⟩ := compiled
  obtain ⟨line, ends⟩ : ∃ line, (scan source).ending = .finish line := by
    cases ends : (scan source).ending with
    | finish line => exact ⟨line, rfl⟩
    | fault cause =>
      rw [ends] at finished
      cases finished
  have scanned : scan (Text.crlf source) = (scan source).withReturns := by
    rw [scan, Text.crlf, String.toList_ofList]
    exact follows_withReturns source.toList (.text true) 1 line ends
  have start : ({} : Builder) = Builder.withReturns {} := rfl
  rw [compile, build, scanned, Scanned.withReturns, start, Builder.foldlM_withReturns, built]
  have finish := b.finish_withReturns (scan source).ending
  rw [finished] at finish
  exact finish

/-- A value that is free text keeps its line end, in the form that it has in the script. -/
example : compile false (Text.crlf "<VAR NAME=\"a\nb\">") =
    .ok [.mark ⟨"VAR", [("NAME", "a\r\nb")]⟩] := by
  decide +kernel

/-- A script survives a change of its line ends: if it is compiled, with or without its comments,
and no attribute of the result has a value with a line feed, then it is compiled to the same tokens
with a return in front of every line feed. Whether there are returns in the script already does not
matter. -/
theorem compile_crlf {keep : Bool} {source : String} {tokens : List Token}
    (compiled : compile keep source = .ok tokens)
    (flat : ∀ value ∈ Token.valuesAll tokens, '\n' ∉ value.toList) :
    compile keep (Text.crlf source) = .ok tokens := by
  rw [compile_withReturns compiled, Token.withReturnsAll_eq_self tokens flat]

/-- A script with line ends between its runs, around comments, between the attributes of a tag and
inside the quotes of a number. -/
def brokenScript : String :=
  "a\n;note\nb<A\nID=\"\n7\"\n NAME=n\n>c\n;x\n</\nA>\n<BR>\nd\n"

/-- What it is compiled to. -/
def brokenTokens : List Token :=
  [.text "a", .comment "note", .text "b",
    .span ⟨"A", [("ID", "7"), ("NAME", "n")]⟩ [.text "c", .comment "x"], .lineBreak, .text "d"]

/-- The script is compiled to the same tokens with the longer line ends. -/
theorem compile_crlf_broken :
    Text.crlf brokenScript = "a\r\n;note\r\nb<A\r\nID=\"\r\n7\"\r\n NAME=n\r\n>c\r\n;x\r\n" ++
        "</\r\nA>\r\n<BR>\r\nd\r\n" ∧
      compile true brokenScript = .ok brokenTokens ∧
      compile true (Text.crlf brokenScript) = .ok brokenTokens := by
  have compiled : compile true brokenScript = .ok brokenTokens := by
    decide +kernel
  exact ⟨by decide +kernel, compiled, compile_crlf compiled (by decide +kernel)⟩

end Script

end NovelChart
