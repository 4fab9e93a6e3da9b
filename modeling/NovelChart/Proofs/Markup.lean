import NovelChart.Proofs.Tag
import NovelChart.Script.Markup
import NovelChart.Script.Print

/-!
# Printed markup is parsed back

Names are printed in upper case. A value stands bare when all its characters are harmless, and in
quotes otherwise; quoted, it may hold any character. Reading what was printed gives the name and the
attributes back, up to the case of names, so a tag that has a canonical form is read as that form.
The names of a script may as well be other words, in any case.

## Main definitions

* `Script.IsWord`: characters that are read as one name
* `Script.IsName`: characters that are printed as a name
* `Script.Markup.writeInside`: the inside of a tag with names as they are given

## Main results

* `Script.Markup.value_printValue`: a printed value is read back, whatever it holds
* `Script.Markup.attributes_writeAttr`: attributes are read back under upper-case names
* `Script.Markup.parse_writeInside`: the inside of a tag is read as its name with its attributes
* `Script.Markup.parse_printTag`, `Script.Markup.parse_printClose`: a printed tag is read as its
  canonical form, and its closing tag as the name
-/

namespace NovelChart

namespace Text

variable {c : Char}

theorem toNat_of_isUpper (letter : c.isUpper = true) : 65 ≤ c.toNat ∧ c.toNat ≤ 90 := by
  simpa [UInt32.le_iff_toNat_le] using of_decide_eq_true letter

theorem toNat_of_isLower (letter : c.isLower = true) : 97 ≤ c.toNat ∧ c.toNat ≤ 122 := by
  have bounds := Bool.and_eq_true_iff.mp letter
  simpa [UInt32.le_iff_toNat_le] using bounds

/-- Characters of a class are split off up to the first one that is not of the class. -/
theorem span_append {p : Char → Bool} {cs rest : List Char} (inside : ∀ c ∈ cs, p c = true)
    (ends : ∀ c ∈ rest.head?, p c = false) :
    (cs ++ rest).takeWhile p = cs ∧ (cs ++ rest).dropWhile p = rest := by
  have stop : rest.takeWhile p = [] ∧ rest.dropWhile p = rest := by
    cases rest with
    | nil => exact ⟨rfl, rfl⟩
    | cons d rest => simp [ends d rfl]
  rw [List.takeWhile_append_of_pos inside, List.dropWhile_append_of_pos inside, stop.1, stop.2,
    List.append_nil]
  exact ⟨rfl, rfl⟩

end Text

namespace Script

/-- Characters that are read as one name. -/
def IsWord (cs : List Char) : Prop :=
  cs ≠ [] ∧ ∀ c ∈ cs, Markup.isWordChar c = true

/-- Characters that are printed as a name: capital letters, at least one. -/
def IsName (cs : List Char) : Prop :=
  cs ≠ [] ∧ ∀ c ∈ cs, c.isUpper = true

theorem isName_table : ∀ spec ∈ TagSpec.table, IsName spec.name.toList ∧
    ∀ a ∈ spec.attrs, IsName a.name.toList := by
  -- As conditions that are decided by running over the table.
  have all : ∀ spec ∈ TagSpec.table,
      (spec.name.toList.isEmpty = false ∧ spec.name.toList.all Char.isUpper = true) ∧
        ∀ a ∈ spec.attrs,
          a.name.toList.isEmpty = false ∧ a.name.toList.all Char.isUpper = true := by
    decide
  simpa only [IsName, List.isEmpty_eq_false_iff, List.all_eq_true] using all

variable {c : Char} {cs rest : List Char}

namespace Markup

/-! ### Words -/

theorem isWordChar_of_isUpper (letter : c.isUpper = true) : isWordChar c = true := by
  have bounds := Text.toNat_of_isUpper letter
  have ascii : c.toNat < 0x80 := by omega
  have alpha : c.isAlpha = true := Bool.or_eq_true_iff.mpr (.inl letter)
  simp [isWordChar, Text.isAlphanumeric, ascii, Char.isAlphanum, alpha]

theorem isWord_of_isName (name : IsName cs) : IsWord cs :=
  ⟨name.1, fun c member => isWordChar_of_isUpper (name.2 c member)⟩

/-- No blank stands in a name. -/
theorem not_isBlank_of_isWordChar (inside : isWordChar c = true) : Text.isBlank c = false := by
  have blanks : ∀ n ∈ [0x09, 0x0A, 0x0B, 0x0C, 0x0D, 0x20, 0x85, 0xA0, 0x1680, 0x2000, 0x2001,
      0x2002, 0x2003, 0x2004, 0x2005, 0x2006, 0x2007, 0x2008, 0x2009, 0x200A, 0x2028, 0x2029,
      0x202F, 0x205F, 0x3000], isWordChar (Char.ofNat n) = false := by
    decide +kernel
  rw [Bool.eq_false_iff]
  intro blank
  have listed := blanks c.toNat (by
    simp only [Text.isBlank, Bool.or_eq_true, Bool.and_eq_true, decide_eq_true_eq,
      beq_iff_eq] at blank
    simp only [List.mem_cons, List.not_mem_nil]
    omega)
  rw [Char.ofNat_toNat, inside] at listed
  cases listed

/-- No blank stands in front of a name. -/
theorem dropBlanks_word (name : IsWord cs) : Text.dropBlanks (cs ++ rest) = cs ++ rest := by
  obtain ⟨c, cs, rfl⟩ := List.exists_cons_of_ne_nil name.1
  refine Text.dropBlanks_eq_self fun d first => ?_
  obtain rfl : c = d := Option.some.inj first
  exact not_isBlank_of_isWordChar (name.2 c List.mem_cons_self)

/-- A name is read up to the first character that belongs to no name. -/
theorem word_append (name : IsWord cs) (ends : ∀ c ∈ rest.head?, isWordChar c = false) :
    word (cs ++ rest) = (cs, rest) := by
  obtain ⟨taken, left⟩ := Text.span_append name.2 ends
  simp only [word, dropBlanks_word name, taken, left]

theorem dropBlanks_blank (cs : List Char) :
    Text.dropBlanks (' ' :: cs) = Text.dropBlanks cs :=
  rfl

/-- A blank in front of a name does not matter. -/
theorem word_blank (cs : List Char) : word (' ' :: cs) = word cs :=
  rfl

/-! ### Values -/

theorem toNat_of_isPlainValueChar (plain : isPlainValueChar c = true) :
    33 ≤ c.toNat ∧ c.toNat ≤ 126 ∧ c ≠ '"' ∧ c ≠ '>' := by
  simp only [isPlainValueChar, Bool.or_eq_true, beq_iff_eq] at plain
  rcases plain with (((((letter | rfl) | rfl) | rfl) | rfl) | rfl) | rfl
  · have bounds : (65 ≤ c.toNat ∧ c.toNat ≤ 90) ∨ (97 ≤ c.toNat ∧ c.toNat ≤ 122) ∨
        (48 ≤ c.toNat ∧ c.toNat ≤ 57) := by
      rcases Bool.or_eq_true_iff.mp letter with letter | digit
      · rcases Bool.or_eq_true_iff.mp letter with upper | lower
        · exact .inl (Text.toNat_of_isUpper upper)
        · exact .inr (.inl (Text.toNat_of_isLower lower))
      · exact .inr (.inr (Text.toNat_of_isDigit digit))
    have quote : c ≠ '"' := by
      rintro rfl
      simp at bounds
    have bracket : c ≠ '>' := by
      rintro rfl
      simp at bounds
    exact ⟨by omega, by omega, quote, bracket⟩
  all_goals decide

theorem isBareChar_of_plain (plain : isPlainValueChar c = true) : isBareChar c = true := by
  obtain ⟨low, high, quote, _⟩ := toNat_of_isPlainValueChar plain
  simp [isBareChar, Text.not_isBlank_of_range low high, quote]

/-- In quotes, a character other than a quote or a backslash stands for itself. -/
theorem quotedValue_plain (quote : c ≠ '"') (backslash : c ≠ '\\') (cs : List Char) :
    quotedValue (c :: cs) = (quotedValue cs).map fun x => (c :: x.1, x.2) := by
  -- The last equation of the reader is the one for these characters.
  rw [quotedValue.eq_5 c _ quote (fun eq _ => backslash eq) (fun _ _ eq _ => backslash eq)]
  cases quotedValue cs with
  | error f => rfl
  | ok x => rfl

theorem quotedValue_escape (escaped : c = '"' ∨ c = '\\') (cs : List Char) :
    quotedValue ('\\' :: c :: cs) = (quotedValue cs).map fun x => (c :: x.1, x.2) := by
  rw [quotedValue, if_pos escaped]
  cases quotedValue cs with
  | error f => rfl
  | ok x => rfl

/-- A quoted value is read back up to its closing quote. -/
theorem quotedValue_quote (cs rest : List Char) :
    quotedValue (cs.flatMap quoteValueChar ++ '"' :: rest) = .ok (cs, rest) := by
  induction cs with
  | nil => rfl
  | cons c cs ih =>
    rw [List.flatMap_cons, List.append_assoc, quoteValueChar]
    by_cases special : c = '"' ∨ c = '\\'
    · rw [if_pos special, List.cons_append, List.singleton_append, quotedValue_escape special, ih]
      rfl
    · obtain ⟨quote, backslash⟩ := not_or.mp special
      rw [if_neg special, List.singleton_append, quotedValue_plain quote backslash, ih]
      rfl

theorem value_quoted : value ('"' :: rest) = quotedValue rest :=
  rfl

/-- A bare value is read up to the first character that cannot stand in one. -/
theorem value_bare (filled : cs ≠ []) (bare : ∀ c ∈ cs, isBareChar c = true)
    (ends : ∀ c ∈ rest.head?, isBareChar c = false) : value (cs ++ rest) = .ok (cs, rest) := by
  obtain ⟨c, cs, rfl⟩ := List.exists_cons_of_ne_nil filled
  have first := bare c List.mem_cons_self
  simp only [isBareChar, Bool.and_eq_true, Bool.not_eq_true', bne_iff_ne] at first
  have front : Text.dropBlanks (c :: cs ++ rest) = c :: cs ++ rest := by
    refine Text.dropBlanks_eq_self fun d head => ?_
    obtain rfl : c = d := Option.some.inj head
    exact first.1
  obtain ⟨taken, left⟩ := Text.span_append bare ends
  rw [value, front]
  split
  · next quoted =>
    -- A quote cannot stand in a bare value, so the value is not taken for a quoted one.
    exact absurd (List.cons.inj quoted).1 first.2
  · rw [taken, left]
    rfl

/-- A printed value is read back, whatever it holds. -/
theorem value_printValue (v : String) (ends : ∀ c ∈ rest.head?, isBareChar c = false) :
    value (printValue v ++ rest) = .ok (v.toList, rest) := by
  rw [printValue]
  split
  · next bare =>
    obtain ⟨filled, plain⟩ := Bool.and_eq_true_iff.mp bare
    refine value_bare (by simpa using filled) (fun c member => ?_) ends
    exact isBareChar_of_plain (List.all_eq_true.mp plain c member)
  · rw [List.cons_append, List.cons_append, value_quoted, List.append_assoc]
    exact quotedValue_quote v.toList rest

/-! ### Attributes -/

/-- Reading an attribute, once its parts are known. -/
theorem attributes_step {cs name behind value more : List Char}
    (filled : (Text.dropBlanks cs).isEmpty = false) (named : word cs = (name, behind))
    (nonempty : name ≠ []) (eaten : eat? '=' behind = some rest)
    (read : Markup.value rest = .ok (value, more)) :
    attributes cs = do
      let attrs ← attributes more
      return (Text.upper (String.ofList name), String.ofList value) :: attrs := by
  rw [attributes, if_neg (by simp [filled]), named, if_neg (by simpa using nonempty)]
  split
  · next missing => cases eaten.symm.trans missing
  · next rest' found =>
    obtain rfl : rest = rest' := Option.some.inj (eaten.symm.trans found)
    split
    · next failed => cases read.symm.trans failed
    · next found =>
      cases read.symm.trans found
      rfl

theorem upper_upper (s : String) : Text.upper (Text.upper s) = Text.upper s :=
  Text.upper_congr (Text.sameLetters_upper s)

/-- An attribute behind a blank, under the name that it is given. -/
def writeAttr (attr : String × String) : List Char :=
  ' ' :: attr.1.toList ++ '=' :: printValue attr.2

theorem head?_writeAttr (attrs : List (String × String)) :
    ∀ c ∈ (attrs.flatMap writeAttr).head?, c = ' ' := by
  cases attrs with
  | nil => simp
  | cons attr attrs =>
    intro c first
    exact (Option.some.inj first).symm

/-- One attribute is read, and the others behind it. -/
theorem attributes_cons {attr : String × String} (name : IsWord attr.1.toList)
    (attrs : List (String × String)) :
    attributes ((attr :: attrs).flatMap writeAttr) = do
      let more ← attributes (attrs.flatMap writeAttr)
      return (Text.upper attr.1, attr.2) :: more := by
  -- A value ends where the blank of the next attribute, or nothing, follows.
  have ends : ∀ c ∈ (attrs.flatMap writeAttr).head?, isBareChar c = false := by
    intro c first
    rw [head?_writeAttr attrs c first]
    decide
  have shape : (attr :: attrs).flatMap writeAttr = ' ' :: (attr.1.toList ++
      '=' :: (printValue attr.2 ++ attrs.flatMap writeAttr)) := by
    simp [writeAttr]
  have filled : (Text.dropBlanks ((attr :: attrs).flatMap writeAttr)).isEmpty = false := by
    rw [shape, dropBlanks_blank, dropBlanks_word name]
    simp
  have named : word ((attr :: attrs).flatMap writeAttr) = (attr.1.toList,
      '=' :: (printValue attr.2 ++ attrs.flatMap writeAttr)) := by
    rw [shape, word_blank]
    refine word_append name fun c first => ?_
    obtain rfl : '=' = c := Option.some.inj first
    decide
  have eaten : eat? '=' ('=' :: (printValue attr.2 ++ attrs.flatMap writeAttr)) =
      some (printValue attr.2 ++ attrs.flatMap writeAttr) := rfl
  rw [attributes_step filled named name.1 eaten (value_printValue attr.2 ends),
    String.ofList_toList, String.ofList_toList]

/-- Attributes are read back under upper-case names. -/
theorem attributes_writeAttr {attrs : List (String × String)}
    (names : ∀ attr ∈ attrs, IsWord attr.1.toList) :
    attributes (attrs.flatMap writeAttr) =
      .ok (attrs.map fun attr => (Text.upper attr.1, attr.2)) := by
  induction attrs with
  | nil =>
    rw [List.flatMap_nil, attributes]
    rfl
  | cons attr attrs ih =>
    rw [List.forall_mem_cons] at names
    rw [attributes_cons names.1, ih names.2]
    rfl

/-! ### Tags -/

/-- The inside of a tag, under the names that it is given. -/
def writeInside (name : String) (attrs : List (String × String)) : List Char :=
  name.toList ++ attrs.flatMap writeAttr

/-- A name at the front is no closing tag. -/
theorem eat?_word (name : IsWord cs) : eat? '/' (cs ++ rest) = none := by
  rw [eat?, dropBlanks_word name]
  obtain ⟨c, cs, rfl⟩ := List.exists_cons_of_ne_nil name.1
  have slash : c ≠ '/' := by
    rintro rfl
    exact absurd (name.2 '/' List.mem_cons_self) (by decide)
  simp [slash]

/-- The inside of a tag is read as the name with its attributes. -/
theorem parse_writeInside {name : String} {attrs : List (String × String)}
    (word : IsWord name.toList) (words : ∀ attr ∈ attrs, IsWord attr.1.toList) :
    parse (writeInside name attrs) =
      ofTag (Text.upper name) (attrs.map fun attr => (Text.upper attr.1, attr.2)) := by
  have ends : ∀ c ∈ (attrs.flatMap writeAttr).head?, isWordChar c = false := by
    intro c first
    rw [head?_writeAttr attrs c first]
    decide
  have filled : name.toList.isEmpty = false := by simpa using word.1
  simp only [parse, writeInside, eat?_word word, word_append word ends, filled,
    String.ofList_toList, attributes_writeAttr words]
  rfl

/-- The inside of a printed tag. -/
def printInside (tag : Tag) : List Char :=
  (Text.upper tag.name).toList ++ tag.attrs.flatMap printAttr

/-- A tag is printed with its names in upper case. -/
theorem printInside_eq (tag : Tag) : printInside tag =
    writeInside (Text.upper tag.name) (tag.attrs.map fun attr => (Text.upper attr.1, attr.2)) := by
  rw [printInside, writeInside, List.flatMap_map]
  rfl

/-- The inside of a printed tag is read as the name with its attributes. -/
theorem parse_printInside {tag : Tag} (name : IsName (Text.upper tag.name).toList)
    (names : ∀ attr ∈ tag.attrs, IsName (Text.upper attr.1).toList) :
    parse (printInside tag) =
      ofTag (Text.upper tag.name) (tag.attrs.map fun attr => (Text.upper attr.1, attr.2)) := by
  have words : ∀ attr ∈ tag.attrs.map fun attr => (Text.upper attr.1, attr.2),
      IsWord attr.1.toList := by
    intro attr member
    obtain ⟨given, listed, rfl⟩ := List.mem_map.mp member
    exact isWord_of_isName (names given listed)
  rw [printInside_eq, parse_writeInside (isWord_of_isName name) words, upper_upper, List.map_map]
  simp only [Function.comp_def, upper_upper]

/-- The inside of a closing tag is read as its name. -/
theorem parse_close {name : String} (letters : IsWord name.toList) :
    parse ('/' :: name.toList) = .ok (.closing (Text.upper name)) := by
  have eaten : eat? '/' ('/' :: name.toList) = some name.toList := rfl
  have read : word name.toList = (name.toList, []) := by
    have whole := @word_append _ [] letters (by simp)
    rwa [List.append_nil] at whole
  have filled : name.toList.isEmpty = false := by simpa using letters.1
  simp only [parse, eaten, read, filled, String.ofList_toList]
  rfl

theorem parse_printClose {name : String} (letters : IsName (Text.upper name).toList) :
    parse ('/' :: (Text.upper name).toList) = .ok (.closing (Text.upper name)) := by
  rw [parse_close (isWord_of_isName letters), upper_upper]

variable {tag : Tag} {spec : TagSpec} {attrs : List (String × String)}

/-- A tag of the table is printed under its canonical name. -/
theorem upper_of_ofName? (found : TagSpec.ofName? tag.name = some spec) :
    Text.upper tag.name = spec.name := by
  have member := TagSpec.mem_table_of_ofName? found
  rw [← Text.upper_congr (TagSpec.sameLetters_of_ofName? found)]
  exact (TagSpec.upper_name spec member).1

/-- Attributes with a canonical form are printed under the names of their row. -/
theorem isName_of_normalize (member : spec ∈ TagSpec.table)
    (normal : spec.normalize tag.attrs = .ok attrs) :
    ∀ attr ∈ tag.attrs, IsName (Text.upper attr.1).toList := by
  obtain ⟨located, all, -, -⟩ := TagSpec.normalize_eq_ok.mp normal
  generalize tag.attrs = given at all
  induction all with
  | nil => simp
  | @cons attr entry _ _ found _ ih =>
    intro other listed
    cases listed with
    | head =>
      -- The attribute has the letters of a name of the row, and those names are in upper case.
      have inside := List.fst_mem_of_mem_zipIdx (List.mem_of_find?_eq_some found.1)
      have same := List.find?_some found.1
      rw [← Text.upper_congr same, (TagSpec.upper_name spec member).2 _ inside]
      exact (isName_table spec member).2 _ inside
    | tail _ listed => exact ih other listed

/-- The tags of the table are no breaks. -/
theorem not_break_table : ∀ spec ∈ TagSpec.table, ¬(spec.name = "BR" ∨ spec.name = "PG") := by
  decide

/-- A printed tag is read as its canonical form. -/
theorem parse_printTag (found : TagSpec.ofName? tag.name = some spec)
    (normal : spec.normalize tag.attrs = .ok attrs) :
    parse (printInside tag) = .ok (if spec.paired then .opening spec attrs
      else .token (.mark ⟨spec.name, attrs⟩)) := by
  have member := TagSpec.mem_table_of_ofName? found
  have name := upper_of_ofName? found
  rw [parse_printInside (name ▸ (isName_table spec member).1) (isName_of_normalize member normal),
    name, ofTag, if_neg (not_break_table spec member), TagSpec.ofName?_name spec member]
  simp only [TagSpec.normalize_upper normal]
  split <;> rfl

end Markup

end Script

end NovelChart
