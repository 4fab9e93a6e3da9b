import NovelChart.Proofs.Scan

/-!
# Spellings of a tag

The names of a tag and its attributes may stand in any case, and so may a value that is one of
several words. The attributes may stand in any order. All these spellings are read as one tag, whose
attributes are in the order of its row, or all of them are refused: a tag is refused for an
attribute that it does not know, that it has twice or whose value is not of its kind, wherever this
attribute stands.

## Main definitions

* `Script.Recased`, `Script.Respelled`: attributes that differ in case, and also in their order
* `TagSpec.Arranged`: each of the attributes that are given appears once, in the order of the row
* `Script.Defect`: what is wrong with some attributes

## Main results

* `TagSpec.normalize_perm`: the order of attributes does not matter to their canonical form
* `Script.Markup.parse_respelled`: another spelling of a tag is read as the same markup
* `Script.Markup.parse_cases`: what a tag is read as, if it is read at all
* `Script.Markup.not_defect_of_parse`: a tag with a defect is not read
-/

namespace NovelChart

/-! ### Letter case -/

namespace Text

variable {a b : String}

/-- A property of characters that does not depend on their case holds in every spelling. -/
theorem forall_of_sameLetters {p : Char → Prop} (both : ∀ c : Char, p c.toLower ↔ p c)
    (same : sameLetters a b = true) (all : ∀ c ∈ a.toList, p c) : ∀ c ∈ b.toList, p c := by
  intro c member
  have lower : c.toLower ∈ a.toList.map Char.toLower := by
    rw [sameLetters_iff.mp same]
    exact List.mem_map_of_mem member
  obtain ⟨d, listed, eq⟩ := List.mem_map.mp lower
  exact (both c).mp (eq ▸ (both d).mpr (all d listed))

/-- Only letters have another case, and no line end is a letter. -/
theorem toLower_eq_feed (c : Char) : c.toLower = '\n' ↔ c = '\n' := by
  rw [← Char.toNat_inj, ← Char.toNat_inj, toNat_toLower]
  have feed : '\n'.toNat = 10 := rfl
  split <;> omega

/-- Spellings of one text have the same line ends. -/
theorem count_of_sameLetters (same : sameLetters a b = true) :
    a.toList.count '\n' = b.toList.count '\n' := by
  have count_lower : ∀ cs : List Char, cs.count '\n' = (cs.map Char.toLower).count '\n' := by
    intro cs
    rw [List.count_eq_countP, List.count_eq_countP, List.countP_map]
    refine List.countP_congr fun c _ => ?_
    simp [toLower_eq_feed]
  rw [count_lower, count_lower b.toList, sameLetters_iff.mp same]

theorem eq_empty_of_sameLetters (same : sameLetters a b = true) : a = "" ↔ b = "" := by
  rw [← String.toList_eq_nil_iff, ← String.toList_eq_nil_iff, ← List.map_eq_nil_iff,
    sameLetters_iff.mp same, List.map_eq_nil_iff]

theorem sameLetters_comm (a b : String) : sameLetters a b = sameLetters b a := by
  rw [Bool.eq_iff_iff, sameLetters_iff, sameLetters_iff, eq_comm]

end Text

/-! ### The order of attributes -/

namespace TagSpec

open AttrEntry

variable {spec : TagSpec} {name name' : String} {attrs attrs' out : List (String × String)}
  {given given' : List AttrEntry}

theorem ofName?_congr (same : Text.sameLetters name name' = true) :
    ofName? name = ofName? name' := by
  simp only [ofName?, Text.sameLetters_congr same]

/-- Entries are put into the order of the row, whatever order they come in. -/
theorem entries_perm (perm : given.Perm given')
    (inside : ∀ entry ∈ given, entry.1 ∈ spec.attrs.zipIdx)
    (distinct : ((placed given).map Prod.fst).Nodup) :
    spec.entries (placed given).reverse = spec.entries (placed given').reverse := by
  have inside' : ∀ entry ∈ given', entry.1 ∈ spec.attrs.zipIdx := fun entry member =>
    inside entry (perm.mem_iff.mpr member)
  have distinct' : ((placed given').map Prod.fst).Nodup :=
    ((perm.map _).map _).nodup_iff.mp distinct
  refine List.filterMap_congr fun k member => ?_
  -- A place holds the value of its entry, and both lists have the same entries.
  have same : (placed given).reverse.lookup k.2 = (placed given').reverse.lookup k.2 := by
    apply Option.ext
    intro value
    rw [lookup_placed member inside distinct, lookup_placed member inside' distinct',
      perm.mem_iff]
  rw [same]

/-- The order of attributes does not matter to their canonical form. -/
theorem normalize_perm (perm : attrs.Perm attrs') (normal : spec.normalize attrs = .ok out) :
    spec.normalize attrs' = .ok out := by
  obtain ⟨located, all, distinct, rfl⟩ := normalize_eq_ok.mp normal
  obtain ⟨located', all', perm'⟩ := List.perm_comp_forall₂ perm.symm all
  have distinct' : ((placed located').map Prod.fst).Nodup :=
    ((perm'.map _).map _).nodup_iff.mpr distinct
  refine normalize_eq_ok.mpr ⟨located', all', distinct', ?_⟩
  rw [entries_perm perm' (mem_zipIdx_of_locates all') distinct']

/-- Attributes that are located alike have the same canonical form. -/
theorem normalize_congr
    (alike : List.Forall₂ (fun one two => ∀ entry,
      Locates spec AttrSpec.canonical one entry → Locates spec AttrSpec.canonical two entry)
      attrs attrs')
    (normal : spec.normalize attrs = .ok out) : spec.normalize attrs' = .ok out := by
  obtain ⟨located, all, distinct, rfl⟩ := normalize_eq_ok.mp normal
  refine normalize_eq_ok.mpr ⟨located, ?_, distinct, rfl⟩
  clear normal distinct
  induction alike generalizing located with
  | nil => exact all
  | cons first _ ih =>
    cases all with
    | cons found rest => exact .cons (first _ found) (ih _ rest)

/-- The attributes of a row are told apart without regard to case. -/
theorem attr_unique {a a' : AttrSpec} {key : String} (member : spec ∈ table)
    (listed : a ∈ spec.attrs) (listed' : a' ∈ spec.attrs)
    (same : Text.sameLetters a.name key = true) (same' : Text.sameLetters a'.name key = true) :
    a = a' := by
  have find : ∀ {a : AttrSpec}, a ∈ spec.attrs → Text.sameLetters a.name key = true →
      ∃ i, (spec.attrs.zipIdx.find? fun k => Text.sameLetters k.1.name key) =
        some (a, i) := by
    intro a listed same
    obtain ⟨i, here⟩ := List.mem_iff_getElem?.mp listed
    refine ⟨i, ?_⟩
    have found := find?_attr_name spec member (a, i) (List.mem_zipIdx_iff_getElem?.mpr here)
    simp only [Text.sameLetters_congr same] at found
    exact found
  obtain ⟨i, found⟩ := find listed same
  obtain ⟨j, found'⟩ := find listed' same'
  cases found.symm.trans found'
  rfl

/-- What an attribute that is given becomes in a tag: the name of the row, and the value in its
canonical spelling. -/
def Settles (spec : TagSpec) (given kept : String × String) : Prop :=
  ∃ a ∈ spec.attrs, Text.sameLetters a.name given.1 = true ∧ kept.1 = a.name ∧
    a.canonical given.1 given.2 = .ok kept.2

/-- The attributes of a tag are in the order of its row, and each of those that were given appears
once. -/
structure Arranged (spec : TagSpec) (given out : List (String × String)) : Prop where
  sorted : (out.map Prod.fst).Sublist (spec.attrs.map AttrSpec.name)
  distinct : (out.map Prod.fst).Nodup
  settled : ∃ settled, List.Forall₂ spec.Settles given settled ∧ settled.Perm out

private theorem names_distinct : ∀ spec ∈ table, (spec.attrs.map AttrSpec.name).Nodup := by
  decide

/-- A canonical form is an arrangement of the attributes that are given. -/
theorem arranged_of_normalize (member : spec ∈ table) (normal : spec.normalize attrs = .ok out) :
    spec.Arranged attrs out := by
  obtain ⟨located, all, distinct, rfl⟩ := normalize_eq_ok.mp normal
  have inside := mem_zipIdx_of_locates all
  have sorted : ((named (spec.entries (placed located).reverse)).map Prod.fst).Sublist
      (spec.attrs.map AttrSpec.name) := by
    have names := (@entries_sublist spec (placed located).reverse).map fun k => k.1.name
    have row : spec.attrs.map AttrSpec.name = spec.attrs.zipIdx.map fun k => k.1.name := by
      conv_lhs => rw [← List.zipIdx_map_fst 0 spec.attrs, List.map_map]
      rfl
    rw [← row, List.map_map] at names
    rw [named, List.map_map]
    exact names
  refine ⟨sorted, sorted.nodup (names_distinct spec member), named located, ?_, ?_⟩
  · rw [named, List.forall₂_map_right_iff]
    refine all.imp fun attr entry found => ?_
    have same := List.find?_some found.1
    exact ⟨entry.1.1, List.fst_mem_of_mem_zipIdx (List.mem_of_find?_eq_some found.1), same, rfl,
      found.2⟩
  · -- Entries that are put into order are the same entries.
    have nodup : (spec.entries (placed located).reverse).Nodup :=
      (entries_sublist.nodup (nodup_zipIdx_places.of_map _)).of_map _
    have nodup' : located.Nodup := (distinct.of_map _).of_map _
    refine List.Perm.map _ ?_
    rw [List.perm_ext_iff_of_nodup nodup' nodup]
    intro entry
    rw [mem_entries inside distinct]

end TagSpec

/-! ### Attributes in other spellings -/

namespace Script

/-- The attribute of this name has one of several words for its value. -/
def TakesWord (name key : String) : Prop :=
  ∃ spec a words, TagSpec.ofName? name = some spec ∧ a ∈ spec.attrs ∧
    Text.sameLetters a.name key = true ∧ a.kind = .word words

/-- Two attributes of a tag differ in the case of their names, and in the case of their values where
these are words. -/
def Recased (name : String) (one two : String × String) : Prop :=
  Text.sameLetters one.1 two.1 = true ∧
    (one.2 = two.2 ∨ TakesWord name one.1 ∧ Text.sameLetters one.2 two.2 = true)

/-- Attributes of a tag that differ in their order and in case. -/
def Respelled (name : String) (attrs attrs' : List (String × String)) : Prop :=
  ∃ ordered, attrs.Perm ordered ∧ List.Forall₂ (Recased name) ordered attrs'

variable {name name' : String} {one two : String × String} {attrs attrs' : List (String × String)}
  {spec : TagSpec}

theorem TakesWord.congr {key key' : String} (takes : TakesWord name key)
    (same : Text.sameLetters name name' = true) (same' : Text.sameLetters key key' = true) :
    TakesWord name' key' := by
  obtain ⟨spec, a, words, found, listed, named, kind⟩ := takes
  exact ⟨spec, a, words, TagSpec.ofName?_congr same ▸ found, listed,
    Text.sameLetters_congr same' a.name ▸ named, kind⟩

theorem Recased.symm (recased : Recased name one two)
    (same : Text.sameLetters name name' = true) : Recased name' two one := by
  obtain ⟨key, value⟩ := recased
  refine ⟨Text.sameLetters_comm one.1 two.1 ▸ key, ?_⟩
  rcases value with value | ⟨takes, value⟩
  · exact .inl value.symm
  · exact .inr ⟨takes.congr same key, Text.sameLetters_comm one.2 two.2 ▸ value⟩

theorem Respelled.symm (respelled : Respelled name attrs attrs')
    (same : Text.sameLetters name name' = true) : Respelled name' attrs' attrs := by
  obtain ⟨ordered, perm, recased⟩ := respelled
  have back : List.Forall₂ (fun two one => Recased name' two one) attrs' ordered :=
    (recased.imp fun _ _ here => here.symm same).flip
  -- The order can be changed before the case as well as behind it.
  have both : Relation.Comp (List.Forall₂ (Recased name')) List.Perm attrs' attrs :=
    ⟨ordered, back, perm.symm⟩
  rwa [List.forall₂_comp_perm_eq_perm_comp_forall₂] at both

/-- Another spelling of an attribute is located alike. -/
theorem Recased.locates {entry : AttrEntry} (recased : Recased name one two)
    (found : TagSpec.ofName? name = some spec)
    (here : spec.Locates AttrSpec.canonical one entry) :
    spec.Locates AttrSpec.canonical two entry := by
  obtain ⟨key, value⟩ := recased
  obtain ⟨place, passes⟩ := here
  have place' : (spec.attrs.zipIdx.find? fun k => Text.sameLetters k.1.name two.1) =
      some entry.1 := by
    simp only [← Text.sameLetters_congr key]
    exact place
  refine ⟨place', ?_⟩
  -- The name under which an attribute is given does not matter to its value.
  have renamed : entry.1.1.canonical two.1 one.2 = .ok entry.2 := by
    rw [AttrSpec.canonical_eq_settle passes, ← AttrSpec.canonical_eq_settle passes one.1]
    exact passes
  rcases value with value | ⟨⟨spec', a, words, found', listed, named, kind⟩, value⟩
  · rwa [← value]
  · cases found.symm.trans found'
    have member := TagSpec.mem_table_of_ofName? found
    have listed' := List.fst_mem_of_mem_zipIdx (List.mem_of_find?_eq_some place)
    have named' := List.find?_some place
    obtain rfl := TagSpec.attr_unique member listed listed' named named'
    -- A word is found by its letters.
    simp only [AttrSpec.canonical, kind, ← Text.sameLetters_congr value] at renamed ⊢
    split at renamed
    · exact renamed
    · cases renamed

theorem Respelled.normalize {out : List (String × String)} (respelled : Respelled name attrs attrs')
    (found : TagSpec.ofName? name = some spec) (normal : spec.normalize attrs = .ok out) :
    spec.normalize attrs' = .ok out := by
  obtain ⟨ordered, perm, recased⟩ := respelled
  refine TagSpec.normalize_congr ?_ (TagSpec.normalize_perm perm normal)
  refine recased.imp ?_
  intro one two here entry located
  exact here.locates found located

theorem Respelled.length_eq (respelled : Respelled name attrs attrs') :
    attrs.length = attrs'.length := by
  obtain ⟨ordered, perm, recased⟩ := respelled
  rw [perm.length_eq, recased.length_eq]

/-- Names in upper case are another spelling. -/
theorem Respelled.upper (respelled : Respelled name attrs attrs') :
    Respelled name (attrs.map fun attr => (Text.upper attr.1, attr.2))
      (attrs'.map fun attr => (Text.upper attr.1, attr.2)) := by
  obtain ⟨ordered, perm, recased⟩ := respelled
  refine ⟨_, perm.map _, ?_⟩
  rw [List.forall₂_map_left_iff, List.forall₂_map_right_iff]
  refine recased.imp fun one two here => ⟨?_, ?_⟩
  · rw [Text.upper_congr here.1, Text.sameLetters_self]
  · refine here.2.imp_right fun word => ⟨word.1.congr (Text.sameLetters_self name) ?_, word.2⟩
    rw [Text.sameLetters_comm]
    exact Text.sameLetters_upper one.1

/-- A property of names that does not depend on case holds in other spellings of attributes. -/
theorem Respelled.forall_keys {p : String → Prop}
    (both : ∀ {a b : String}, Text.sameLetters a b = true → p a → p b)
    (respelled : Respelled name attrs attrs') (all : ∀ attr ∈ attrs, p attr.1) :
    ∀ attr ∈ attrs', p attr.1 := by
  obtain ⟨ordered, perm, recased⟩ := respelled
  have all : ∀ attr ∈ ordered, p attr.1 := fun attr member => all attr (perm.mem_iff.mpr member)
  clear perm
  induction recased with
  | nil => simp
  | cons here _ ih =>
    rw [List.forall_mem_cons] at all ⊢
    exact ⟨both here.1 all.1, ih all.2⟩

namespace Markup

variable {m : Markup}

/-- A name with attributes in another spelling stands for the same markup. -/
theorem ofTag_respelled (same : Text.sameLetters name name' = true)
    (respelled : Respelled name attrs attrs')
    (made : ofTag (Text.upper name) (attrs.map fun attr => (Text.upper attr.1, attr.2)) = .ok m) :
    ofTag (Text.upper name') (attrs'.map fun attr => (Text.upper attr.1, attr.2)) = .ok m := by
  have upper := respelled.upper
  have length := upper.length_eq
  rw [Text.upper_congr same] at made
  generalize attrs.map (fun attr => (Text.upper attr.1, attr.2)) = given at made upper length
  generalize attrs'.map (fun attr => (Text.upper attr.1, attr.2)) = given' at upper length ⊢
  rw [ofTag] at made ⊢
  split at made
  · next isBreak =>
    rw [if_pos isBreak]
    split at made
    · next empty =>
      obtain rfl := List.isEmpty_iff.mp empty
      obtain rfl := List.length_eq_zero_iff.mp length.symm
      exact made
    · cases made
  · next other =>
    rw [if_neg other]
    split at made
    · cases made
    · next spec found =>
      have found' : TagSpec.ofName? name = some spec := by
        rw [TagSpec.ofName?_congr same, ← TagSpec.ofName?_congr (Text.sameLetters_upper name')]
        exact found
      split at made
      · cases made
      · next out normal =>
        rw [upper.normalize found' normal]
        exact made

/-! ### Reading tags -/

/-- The characters of words are so in either case. -/
theorem isWordChar_toLower (c : Char) : isWordChar c.toLower = true ↔ isWordChar c = true := by
  by_cases capital : 65 ≤ c.toNat ∧ c.toNat ≤ 90
  · have letters : ∀ k < 26, isWordChar (Char.ofNat (65 + k)) = true ∧
        isWordChar (Char.ofNat (65 + k)).toLower = true := by
      decide
    have both := letters (c.toNat - 65) (by omega)
    rw [Nat.add_sub_cancel' capital.1, Char.ofNat_toNat] at both
    exact iff_of_true both.2 both.1
  · have same : c.toLower = c := by
      apply Char.toNat_inj.mp
      rw [Text.toNat_toLower, if_neg capital]
    rw [same]

end Markup

/-- The names are made of letters, digits and underscores. -/
structure Worded (name : String) (attrs : List (String × String)) : Prop where
  tag : ∀ c ∈ name.toList, Markup.isWordChar c = true
  keys : ∀ attr ∈ attrs, ∀ c ∈ attr.1.toList, Markup.isWordChar c = true

theorem Worded.respelled (worded : Worded name attrs) (same : Text.sameLetters name name' = true)
    (respelled : Respelled name attrs attrs') : Worded name' attrs' := by
  have both : ∀ {a b : String}, Text.sameLetters a b = true →
      (∀ c ∈ a.toList, Markup.isWordChar c = true) → ∀ c ∈ b.toList, Markup.isWordChar c = true :=
    fun same => Text.forall_of_sameLetters Markup.isWordChar_toLower same
  exact ⟨both same worded.tag, respelled.forall_keys both worded.keys⟩

/-- All names are filled. -/
def Named (name : String) (attrs : List (String × String)) : Prop :=
  name ≠ "" ∧ ∀ attr ∈ attrs, attr.1 ≠ ""

theorem Named.respelled (named : Named name attrs) (same : Text.sameLetters name name' = true)
    (respelled : Respelled name attrs attrs') : Named name' attrs' := by
  have filled : ∀ {a b : String}, Text.sameLetters a b = true → a ≠ "" → b ≠ "" :=
    fun same => (Text.eq_empty_of_sameLetters same).not.mp
  exact ⟨filled same named.1, respelled.forall_keys filled named.2⟩

theorem Worded.isWord (worded : Worded name attrs) (named : Named name attrs) :
    IsWord name.toList ∧ ∀ attr ∈ attrs, IsWord attr.1.toList := by
  have filled : ∀ {s : String}, s ≠ "" → s.toList ≠ [] := fun some empty =>
    some (String.toList_eq_nil_iff.mp empty)
  exact ⟨⟨filled named.1, worded.tag⟩,
    fun attr member => ⟨filled (named.2 attr member), worded.keys attr member⟩⟩

namespace Markup

variable {m : Markup}

theorem attributes_equals (cs : List Char) :
    attributes ('=' :: cs) = .error .expectedAttribute := by
  rw [attributes]
  rfl

/-- Attributes are not read if one of them has no name. -/
theorem attributes_unnamed {attrs : List (String × String)}
    (words : ∀ attr ∈ attrs, ∀ c ∈ attr.1.toList, isWordChar c = true)
    (unnamed : ∃ attr ∈ attrs, attr.1 = "") :
    ∃ f, attributes (attrs.flatMap writeAttr) = .error f := by
  induction attrs with
  | nil =>
    obtain ⟨_, member, _⟩ := unnamed
    cases member
  | cons attr attrs ih =>
    rw [List.forall_mem_cons] at words
    by_cases empty : attr.1 = ""
    · refine ⟨.expectedAttribute, ?_⟩
      rw [List.flatMap_cons, writeAttr, empty, attributes]
      rfl
    · have later : ∃ attr ∈ attrs, attr.1 = "" := by
        obtain ⟨other, member, none⟩ := unnamed
        rcases List.mem_cons.mp member with rfl | member
        · exact absurd none empty
        · exact ⟨other, member, none⟩
      obtain ⟨f, failed⟩ := ih words.2 later
      refine ⟨f, ?_⟩
      rw [attributes_cons ⟨by simpa using empty, words.1⟩, failed]
      rfl

/-- A tag is not read if it or one of its attributes has no name. -/
theorem parse_unnamed (worded : Worded name attrs) (unnamed : ¬Named name attrs) :
    parse (writeInside name attrs) ≠ .ok m := by
  by_cases empty : name = ""
  · -- Without a name the first attribute is taken for one, and what follows for an attribute.
    subst empty
    change parse (attrs.flatMap writeAttr) ≠ _
    cases attrs with
    | nil =>
      intro read
      cases read
    | cons attr attrs =>
      have shape : (attr :: attrs).flatMap writeAttr = ' ' :: (attr.1.toList ++
          '=' :: (printValue attr.2 ++ attrs.flatMap writeAttr)) := by
        simp [writeAttr]
      rw [shape]
      generalize printValue attr.2 ++ attrs.flatMap writeAttr = rest
      by_cases empty : attr.1 = ""
      · rw [empty]
        intro read
        cases read
      · have word : IsWord attr.1.toList :=
          ⟨by simpa using empty, worded.keys attr List.mem_cons_self⟩
        have filled : attr.1.toList.isEmpty = false := by simpa using empty
        have eaten : eat? '/' (' ' :: (attr.1.toList ++ '=' :: rest)) = none := eat?_word word
        have read : Markup.word (' ' :: (attr.1.toList ++ '=' :: rest)) =
            (attr.1.toList, '=' :: rest) := by
          rw [word_blank]
          refine word_append word fun c first => ?_
          obtain rfl : '=' = c := Option.some.inj first
          decide
        simp [parse, eaten, read, filled, attributes_equals]
  · have missing : ∃ attr ∈ attrs, attr.1 = "" := by
      by_contra none
      exact unnamed ⟨empty, fun attr member same => none ⟨attr, member, same⟩⟩
    have word : IsWord name.toList := ⟨by simpa using empty, worded.tag⟩
    have filled : name.toList.isEmpty = false := by simpa using empty
    obtain ⟨f, failed⟩ := attributes_unnamed worded.keys missing
    have ends : ∀ c ∈ (attrs.flatMap writeAttr).head?, isWordChar c = false := by
      intro c first
      rw [head?_writeAttr attrs c first]
      decide
    simp [parse, writeInside, eat?_word word, word_append word ends, filled, failed]

/-- A tag is read if it and its attributes have names, as what these names stand for. -/
theorem parse_eq_ok (worded : Worded name attrs) : parse (writeInside name attrs) = .ok m ↔
    Named name attrs ∧
      ofTag (Text.upper name) (attrs.map fun attr => (Text.upper attr.1, attr.2)) = .ok m := by
  by_cases named : Named name attrs
  · obtain ⟨word, words⟩ := worded.isWord named
    rw [parse_writeInside word words, and_iff_right named]
  · exact iff_of_false (parse_unnamed worded named) fun read => named read.1

/-- Another spelling of a tag is read as the same markup. -/
theorem parse_respelled (worded : Worded name attrs) (same : Text.sameLetters name name' = true)
    (respelled : Respelled name attrs attrs') :
    parse (writeInside name attrs) = .ok m ↔ parse (writeInside name' attrs') = .ok m := by
  have back : Text.sameLetters name' name = true := Text.sameLetters_comm name name' ▸ same
  have respelled' := respelled.symm same
  rw [parse_eq_ok worded, parse_eq_ok (worded.respelled same respelled)]
  constructor
  · rintro ⟨named, made⟩
    exact ⟨named.respelled same respelled, ofTag_respelled same respelled made⟩
  · rintro ⟨named, made⟩
    exact ⟨named.respelled back respelled', ofTag_respelled back respelled' made⟩

theorem respelled_upper (name : String) (attrs : List (String × String)) :
    Respelled name (attrs.map fun attr => (Text.upper attr.1, attr.2)) attrs := by
  refine ⟨_, .refl _, ?_⟩
  rw [List.forall₂_map_left_iff, List.forall₂_same]
  exact fun attr _ => ⟨Text.sameLetters_upper attr.1, .inl rfl⟩

/-- What a tag is read as: a break without attributes, or a tag of the table with its attributes
arranged. -/
theorem parse_cases (worded : Worded name attrs) (read : parse (writeInside name attrs) = .ok m) :
    (attrs = [] ∧ (Text.upper name = "BR" ∧ m = .token .lineBreak ∨
      Text.upper name = "PG" ∧ m = .token .pageBreak)) ∨
    ∃ spec out, TagSpec.ofName? name = some spec ∧ spec.Arranged attrs out ∧
      m = if spec.paired then .opening spec out else .token (.mark ⟨spec.name, out⟩) := by
  obtain ⟨_, made⟩ := (parse_eq_ok worded).mp read
  rw [ofTag] at made
  split at made
  · next isBreak =>
    split at made
    · next empty =>
      cases made
      refine .inl ⟨List.map_eq_nil_iff.mp (List.isEmpty_iff.mp empty), ?_⟩
      rcases isBreak with line | page
      · exact .inl ⟨line, by rw [line]; rfl⟩
      · exact .inr ⟨page, by rw [page]; rfl⟩
    · cases made
  · split at made
    · cases made
    · next spec found =>
      rw [TagSpec.ofName?_congr (Text.sameLetters_upper name)] at found
      split at made
      · cases made
      · next out normal =>
        have normal' := (respelled_upper name attrs).normalize found normal
        have arranged :=
          TagSpec.arranged_of_normalize (TagSpec.mem_table_of_ofName? found) normal'
        refine .inr ⟨spec, out, found, arranged, ?_⟩
        split at made
        · next paired =>
          cases made
          rw [if_pos paired]
        · next single =>
          cases made
          rw [if_neg single]

end Markup

/-! ### Line ends -/

/-- A value is printed with the line ends that it has. -/
theorem count_printValue (v : String) : (printValue v).count '\n' = v.toList.count '\n' := by
  have quoted : ∀ cs : List Char, (cs.flatMap quoteValueChar).count '\n' = cs.count '\n' := by
    intro cs
    induction cs with
    | nil => rfl
    | cons c cs ih =>
      have here : (quoteValueChar c).count '\n' = [c].count '\n' := by
        rw [quoteValueChar]
        split <;> simp
      rw [List.flatMap_cons, List.count_append, here, ih, ← List.count_append]
      rfl
  rw [printValue]
  split
  · rfl
  · simp [quoted]

/-- The line ends inside of a tag are those of its values. -/
theorem count_writeInside (worded : Worded name attrs) :
    (Markup.writeInside name attrs).count '\n' =
      (attrs.map fun attr => attr.2.toList.count '\n').sum := by
  have flat : ∀ {cs : List Char}, (∀ c ∈ cs, Markup.isWordChar c = true) → cs.count '\n' = 0 := by
    intro cs words
    rw [List.count_eq_zero]
    intro member
    exact absurd (words '\n' member) (by decide)
  have words := worded.keys
  rw [Markup.writeInside, List.count_append, flat worded.tag, Nat.zero_add]
  clear worded
  induction attrs with
  | nil => rfl
  | cons attr attrs ih =>
    rw [List.forall_mem_cons] at words
    rw [List.flatMap_cons, List.count_append, ih words.2, List.map_cons, List.sum_cons,
      Markup.writeAttr]
    simp [flat words.1, count_printValue]

/-- Spellings of one tag have the same number of line ends. -/
theorem Respelled.count_eq (worded : Worded name attrs)
    (same : Text.sameLetters name name' = true) (respelled : Respelled name attrs attrs') :
    (Markup.writeInside name attrs).count '\n' = (Markup.writeInside name' attrs').count '\n' := by
  rw [count_writeInside worded, count_writeInside (worded.respelled same respelled)]
  obtain ⟨ordered, perm, recased⟩ := respelled
  have values : ordered.map (fun attr => attr.2.toList.count '\n') =
      attrs'.map fun attr => attr.2.toList.count '\n' := by
    rw [← List.forall₂_eq_eq_eq, List.forall₂_map_left_iff, List.forall₂_map_right_iff]
    refine recased.imp fun one two here => ?_
    rcases here.2 with value | ⟨_, value⟩
    · rw [value]
    · exact Text.count_of_sameLetters value
  rw [(perm.map _).sum_nat, values]

end Script

/-! ### Attributes with a defect -/

/-- Whether a value is of a kind: it spells a number, or one of the words. -/
def AttrKind.admits : AttrKind → String → Bool
  | .int, value => (AttrSpec.int? value).isSome
  | .str, _ => true
  | .word words, value => words.any fun word => Text.sameLetters word value

theorem AttrSpec.admits_of_canonical {a : AttrSpec} {key value value' : String}
    (canonical : a.canonical key value = .ok value') : a.kind.admits value = true := by
  obtain ⟨name, kind⟩ := a
  cases kind with
  | str => rfl
  | int =>
    cases read : int? value with
    | none => simp [AttrSpec.canonical, read] at canonical
    | some n => simp [AttrKind.admits, read]
  | word words =>
    cases found : words.find? fun word => Text.sameLetters word value with
    | none => simp [AttrSpec.canonical, found] at canonical
    | some word =>
      have same := List.find?_some found
      exact List.any_eq_true.mpr ⟨word, List.mem_of_find?_eq_some found, same⟩

namespace Script

variable {name : String} {attrs out : List (String × String)} {spec : TagSpec}

/-- What is wrong with the attributes of a tag: one of them is given twice, or the tag does not know
it, or its value is not of its kind. -/
inductive Defect (name : String) (attrs : List (String × String)) : Prop
  | duplicate (twice : ¬attrs.Pairwise fun one two => Text.sameLetters one.1 two.1 = false)
  | unknown {attr : String × String} (member : attr ∈ attrs)
    (foreign : ∀ spec, TagSpec.ofName? name = some spec →
      ∀ a ∈ spec.attrs, Text.sameLetters a.name attr.1 = false)
  | illTyped {attr : String × String} {spec : TagSpec} {a : AttrSpec} (member : attr ∈ attrs)
    (found : TagSpec.ofName? name = some spec) (listed : a ∈ spec.attrs)
    (named : Text.sameLetters a.name attr.1 = true) (refused : a.kind.admits attr.2 = false)

theorem exists_settles {settled : List (String × String)}
    (all : List.Forall₂ spec.Settles attrs settled) :
    ∀ attr ∈ attrs, ∃ kept ∈ settled, spec.Settles attr kept := by
  induction all with
  | nil => simp
  | @cons attr kept attrs settled here _ ih =>
    rw [List.forall_mem_cons]
    refine ⟨⟨kept, List.mem_cons_self, here⟩, fun other listed => ?_⟩
    obtain ⟨kept', listed', there⟩ := ih other listed
    exact ⟨kept', List.mem_cons_of_mem kept listed', there⟩

/-- Attributes that settle under different names are different attributes. -/
theorem pairwise_of_settles {settled : List (String × String)} (member : spec ∈ TagSpec.table)
    (all : List.Forall₂ spec.Settles attrs settled) (distinct : (settled.map Prod.fst).Nodup) :
    attrs.Pairwise fun one two => Text.sameLetters one.1 two.1 = false := by
  induction all with
  | nil => exact .nil
  | @cons attr kept attrs settled here rest ih =>
    rw [List.map_cons, List.nodup_cons] at distinct
    refine .cons (fun other listed => ?_) (ih distinct.2)
    obtain ⟨a, row, named, kept_eq, _⟩ := here
    obtain ⟨kept', listed', a', row', named', kept_eq', _⟩ := exists_settles rest other listed
    rw [Bool.eq_false_iff]
    intro same
    -- Otherwise both settle under one name.
    rw [Text.sameLetters_congr same] at named
    obtain rfl := TagSpec.attr_unique member row row' named named'
    exact distinct.1 (kept_eq ▸ kept_eq' ▸ List.mem_map_of_mem listed')

/-- Attributes that could be arranged have no defect. -/
theorem not_defect_of_arranged (found : TagSpec.ofName? name = some spec)
    (arranged : spec.Arranged attrs out) : ¬Defect name attrs := by
  have member := TagSpec.mem_table_of_ofName? found
  obtain ⟨settled, all, perm⟩ := arranged.settled
  have distinct : (settled.map Prod.fst).Nodup := (perm.map _).nodup_iff.mpr arranged.distinct
  intro defect
  cases defect with
  | duplicate twice => exact twice (pairwise_of_settles member all distinct)
  | unknown listed foreign =>
    obtain ⟨_, _, a, row, named, _⟩ := exists_settles all _ listed
    rw [foreign spec found a row] at named
    cases named
  | illTyped listed found' row named refused =>
    cases found.symm.trans found'
    obtain ⟨_, _, a, row', named', _, canonical⟩ := exists_settles all _ listed
    obtain rfl := TagSpec.attr_unique member row row' named named'
    rw [AttrSpec.admits_of_canonical canonical] at refused
    cases refused

/-- A tag that is read has no defect. -/
theorem Markup.not_defect_of_parse {m : Markup} (worded : Worded name attrs)
    (read : parse (writeInside name attrs) = .ok m) : ¬Defect name attrs := by
  rcases parse_cases worded read with ⟨rfl, _⟩ | ⟨spec, out, found, arranged, _⟩
  · intro defect
    cases defect with
    | duplicate twice => exact twice .nil
    | unknown member => cases member
    | illTyped member => cases member
  · exact not_defect_of_arranged found arranged

end Script

end NovelChart
