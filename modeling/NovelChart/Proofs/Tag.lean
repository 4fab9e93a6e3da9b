import Mathlib.Data.List.Forall2
import Mathlib.Data.List.Sublists
import NovelChart.Proofs.Format
import NovelChart.Proofs.Numeral
import NovelChart.Markup.Token

/-!
# Tags and their attributes

A tag carries attributes under names in any case and in any order; its row of the table gives them
places. What placing finds out about a tag is the list of its *entries*: attributes of the row with
their places and values, in the order of the row. Placing and normalizing are both described
through them.

## Main definitions

* `AttrEntry`, `TagSpec.entries`: the attributes of a tag in their places
* `TagSpec.Locates`: an attribute names the place of an entry
* `Tag.IsCanonical`: the tag is spelled as the table spells it

## Main results

* `TagSpec.place_eq_ok`: placing succeeds when every attribute is located and no place taken twice
* `TagSpec.normalize_eq_ok`: the canonical form holds the located attributes in the order of the row
* `Tag.IsCanonical.normalize`: a canonical tag is its own canonical form
-/

namespace NovelChart

/-! ### The table -/

/-- The words that an attribute chooses from. -/
def AttrKind.words : AttrKind → List String
  | .word words => words
  | _ => []

/-- The break kind of a tag that is written as a break. -/
def TagCode.breakKind? : TagCode → Option UInt8
  | .brk kind => some kind
  | .tag _ => none

namespace TagSpec

variable {spec : TagSpec} {name : String}

theorem mem_table_of_ofName? (found : ofName? name = some spec) : spec ∈ table :=
  List.mem_of_find?_eq_some found

theorem sameLetters_of_ofName? (found : ofName? name = some spec) :
    Text.sameLetters spec.name name = true := by
  have same := List.find?_some found
  exact same

theorem mem_table_of_ofCode? {code : TagCode} (found : ofCode? code = some spec) : spec ∈ table :=
  List.mem_of_find?_eq_some found

theorem code_of_ofCode? {code : TagCode} (found : ofCode? code = some spec) :
    spec.code = code := by
  have same := List.find?_some found
  exact of_decide_eq_true same

/-- Every row is found by its name. -/
theorem ofName?_name : ∀ spec ∈ table, ofName? spec.name = some spec := by
  decide

/-- Every row is found by its code. -/
theorem ofCode?_code : ∀ spec ∈ table, ofCode? spec.code = some spec := by
  decide

/-- Every attribute of a row is found by its name. -/
theorem find?_attr_name : ∀ spec ∈ table, ∀ k ∈ spec.attrs.zipIdx,
    (spec.attrs.zipIdx.find? fun (a, _) => Text.sameLetters a.name k.1.name) = some k := by
  decide

/-- A row has at most eight attributes, one for each bit of a byte. -/
theorem length_attrs_le : ∀ spec ∈ table, spec.attrs.length ≤ 8 := by
  decide

private theorem breaks : ∀ spec ∈ table, spec.code.breakKind?.isSome →
    spec.attrs = [] ∧ spec.paired = false ∧ spec.code.breakKind? ≠ some lineBreakKind ∧
      spec.code.breakKind? ≠ some pageBreakKind := by
  decide

/-- A row that is written as a break has no attributes and encloses nothing, and it is neither the
line nor the page break. -/
theorem attrs_of_brk {kind : UInt8} (member : spec ∈ table) (code : spec.code = .brk kind) :
    spec.attrs = [] ∧ spec.paired = false ∧ kind ≠ lineBreakKind ∧ kind ≠ pageBreakKind := by
  have row := breaks spec member
  simp only [code, TagCode.breakKind?, Option.isSome_some, ne_eq, Option.some.injEq,
    forall_const] at row
  exact row

private theorem words_distinct : ∀ spec ∈ table, ∀ a ∈ spec.attrs, a.kind.words.length ≤ 256 ∧
    ∀ k ∈ a.kind.words.zipIdx,
      (a.kind.words.findIdx? fun word => Text.sameLetters word k.1) = some k.2 := by
  decide

/-- The words of an attribute are told apart without regard to case. -/
theorem findIdx?_word {a : AttrSpec} {words : List String} {i : Nat} {word : String}
    (member : spec ∈ table) (attr : a ∈ spec.attrs) (kind : a.kind = .word words)
    (listed : words[i]? = some word) :
    i < 256 ∧ (words.findIdx? fun other => Text.sameLetters other word) = some i := by
  obtain ⟨few, found⟩ := words_distinct spec member a attr
  simp only [kind, AttrKind.words] at few found
  have inside := (List.getElem?_eq_some_iff.mp listed).1
  exact ⟨by omega, found (word, i) (List.mem_zipIdx_iff_getElem?.mpr listed)⟩

/-- The words of an attribute are found as they are listed. -/
theorem find?_word : ∀ spec ∈ table, ∀ a ∈ spec.attrs, ∀ word ∈ a.kind.words,
    (a.kind.words.find? fun other => Text.sameLetters other word) = some word := by
  decide

/-- Names of tags and attributes are in upper case. -/
theorem upper_name : ∀ spec ∈ table, Text.upper spec.name = spec.name ∧
    ∀ a ∈ spec.attrs, Text.upper a.name = a.name := by
  decide

end TagSpec

/-! ### Entries -/

/-- An attribute of a row with its place, and the value that a tag gives it. -/
abbrev AttrEntry := (AttrSpec × Nat) × String

namespace AttrEntry

/-- Entries as a tag spells them, under canonical names. -/
def named (entries : List AttrEntry) : List (String × String) :=
  entries.map fun entry => (entry.1.1.name, entry.2)

/-- Entries as placed values. -/
def placed (entries : List AttrEntry) : List (Nat × String) :=
  entries.map fun entry => (entry.1.2, entry.2)

/-- Entries as attributes with values. -/
def valued (entries : List AttrEntry) : List (AttrSpec × String) :=
  entries.map fun entry => (entry.1.1, entry.2)

end AttrEntry

namespace TagSpec

open AttrEntry

variable {spec : TagSpec} {values : List (Nat × String)} {given : List AttrEntry}

/-- The entries that placed values make, in the order of the row. -/
def entries (spec : TagSpec) (values : List (Nat × String)) : List AttrEntry :=
  spec.attrs.zipIdx.filterMap fun k => (values.lookup k.2).map fun value => (k, value)

theorem arrange_eq_valued : spec.arrange values = valued (spec.entries values) := by
  rw [arrange, valued, TagSpec.entries, List.map_filterMap]
  congr 1
  funext ⟨a, i⟩
  cases found : values.lookup i <;> simp [found]

/-- The entries belong to the attributes whose places are taken. -/
theorem map_fst_entries : (spec.entries values).map Prod.fst =
    spec.attrs.zipIdx.filter fun k => (values.lookup k.2).isSome := by
  rw [TagSpec.entries, List.map_filterMap, ← List.filterMap_eq_filter]
  congr 1
  funext k
  cases found : values.lookup k.2 <;> simp [found, Option.guard]

theorem entries_sublist : ((spec.entries values).map Prod.fst).Sublist spec.attrs.zipIdx := by
  rw [map_fst_entries]
  exact List.filter_sublist

theorem nodup_zipIdx_places : (spec.attrs.zipIdx.map Prod.snd).Nodup := by
  rw [List.zipIdx_map_snd]
  exact List.nodup_range'

/-- Places of a row are not taken twice. -/
theorem nodup_places (sublist : (given.map Prod.fst).Sublist spec.attrs.zipIdx) :
    ((placed given).map Prod.fst).Nodup := by
  have places : (placed given).map Prod.fst = (given.map Prod.fst).map Prod.snd := by
    simp [placed]
  rw [places]
  exact (sublist.map Prod.snd).nodup nodup_zipIdx_places

private theorem filterMap_entries {row : List (AttrSpec × Nat)} (look : Nat → Option String)
    (sublist : (given.map Prod.fst).Sublist row) (distinct : row.Nodup)
    (looks : ∀ k ∈ row, ∀ value, look k.2 = some value ↔ (k, value) ∈ given) :
    (row.filterMap fun k => (look k.2).map fun value => (k, value)) = given := by
  -- The row is walked along the keys of the entries, which are a sublist of it.
  generalize keys : given.map Prod.fst = chosen at sublist
  induction sublist generalizing given with
  | slnil =>
    rw [List.map_eq_nil_iff.mp keys]
    rfl
  | @cons chosen row k sublist ih =>
    -- An attribute that was left out is not found among the entries.
    obtain ⟨fresh, distinct⟩ := List.nodup_cons.mp distinct
    have unseen : look k.2 = none := by
      refine Option.eq_none_iff_forall_ne_some.mpr fun value found => fresh ?_
      have member := (looks k List.mem_cons_self value).mp found
      exact sublist.subset (keys ▸ List.mem_map_of_mem member)
    rw [List.filterMap_cons_none (by rw [unseen]; rfl)]
    exact ih distinct (fun k member => looks k (List.mem_cons_of_mem _ member)) keys
  | @cons_cons chosen row k sublist ih =>
    obtain ⟨⟨_, value⟩, rest, rfl, rfl, later⟩ := List.map_eq_cons_iff.mp keys
    obtain ⟨fresh, distinct⟩ := List.nodup_cons.mp distinct
    -- One that was kept is found as the first entry, and no later attribute is.
    have seen := (looks _ List.mem_cons_self value).mpr List.mem_cons_self
    rw [List.filterMap_cons_some (by rw [seen]; rfl)]
    congr 1
    refine ih distinct (fun k' member value' => ?_) later
    rw [looks k' (List.mem_cons_of_mem _ member) value', List.mem_cons]
    have ne : (k', value') ≠ (_, value) := fun eq => fresh (congrArg Prod.fst eq ▸ member)
    exact or_iff_right ne

/-- Looking up the place of an attribute finds the value of its entry. -/
theorem lookup_placed {k : AttrSpec × Nat} {value : String} (member : k ∈ spec.attrs.zipIdx)
    (inside : ∀ entry ∈ given, entry.1 ∈ spec.attrs.zipIdx)
    (distinct : ((placed given).map Prod.fst).Nodup) :
    (placed given).reverse.lookup k.2 = some value ↔ (k, value) ∈ given := by
  have distinct' : ((placed given).reverse.map Prod.fst).Nodup := by
    rwa [List.map_reverse, List.nodup_reverse]
  rw [lookup_eq_some_iff distinct', List.mem_reverse, placed, List.mem_map]
  constructor
  · rintro ⟨⟨k', value'⟩, listed, eq⟩
    obtain ⟨place, rfl⟩ := Prod.mk.inj eq
    -- A place of the row belongs to one attribute only.
    obtain rfl := List.inj_on_of_nodup_map nodup_zipIdx_places (inside _ listed) member place
    exact listed
  · intro listed
    exact ⟨_, listed, rfl⟩

/-- Reading entries back from their places puts them into the order of the row. -/
theorem mem_entries {entry : AttrEntry} (inside : ∀ entry ∈ given, entry.1 ∈ spec.attrs.zipIdx)
    (distinct : ((placed given).map Prod.fst).Nodup) :
    entry ∈ spec.entries (placed given).reverse ↔ entry ∈ given := by
  rw [TagSpec.entries, List.mem_filterMap]
  constructor
  · rintro ⟨k, member, eq⟩
    obtain ⟨value, found, rfl⟩ := Option.map_eq_some_iff.mp eq
    exact (lookup_placed member inside distinct).mp found
  · intro listed
    have member := inside entry listed
    exact ⟨entry.1, member,
      Option.map_eq_some_iff.mpr ⟨_, (lookup_placed member inside distinct).mpr listed, rfl⟩⟩

/-- Entries in the order of the row are read back from their places as they stand. -/
theorem entries_placed (sublist : (given.map Prod.fst).Sublist spec.attrs.zipIdx) :
    spec.entries (placed given).reverse = given := by
  refine filterMap_entries (fun i => (placed given).reverse.lookup i) sublist
    (nodup_zipIdx_places.of_map _) fun k member value => ?_
  exact lookup_placed member (fun entry listed => sublist.subset (List.mem_map_of_mem listed))
    (nodup_places sublist)

/-! ### Placing -/

/-- The attribute names the place of the entry, and its value passes the check as the value of the
entry. -/
def Locates (spec : TagSpec) (check : AttrSpec → String → String → Except AttrFault String)
    (attr : String × String) (entry : AttrEntry) : Prop :=
  (spec.attrs.zipIdx.find? fun (a, _) => Text.sameLetters a.name attr.1) = some entry.1 ∧
    check entry.1.1 attr.1 attr.2 = .ok entry.2

variable {check : AttrSpec → String → String → Except AttrFault String}
  {attrs : List (String × String)} {before : List (Nat × String)}

/-- What placing an attribute asks for: a place of that name that is free, and a value that
passes. -/
theorem place_cons_eq_ok {key value : String} :
    spec.place check ((key, value) :: attrs) before = .ok values ↔
      ∃ entry : AttrEntry, Locates spec check (key, value) entry ∧
        entry.1.2 ∉ before.map Prod.fst ∧
        spec.place check attrs ((entry.1.2, entry.2) :: before) = .ok values := by
  rw [place]
  split
  · next missing =>
    constructor
    · intro absurd
      cases absurd
    · rintro ⟨entry, ⟨found, _⟩, _⟩
      cases missing.symm.trans found
  · next a i found =>
    rw [refuse_eq_ok, bind_eq_ok, lookup_isSome_iff]
    constructor
    · intro placing
      obtain ⟨free, value', passes, placed⟩ := placing
      exact ⟨((a, i), value'), ⟨found, passes⟩, free, placed⟩
    · intro asked
      obtain ⟨⟨k, value'⟩, ⟨found', passes⟩, free, placed⟩ := asked
      obtain rfl : (a, i) = k := Option.some.inj (found.symm.trans found')
      exact ⟨free, value', passes, placed⟩

theorem place_onto_eq_ok (distinct : (before.map Prod.fst).Nodup) :
    spec.place check attrs before = .ok values ↔
      ∃ located, List.Forall₂ (Locates spec check) attrs located ∧
        values = (placed located).reverse ++ before ∧ (values.map Prod.fst).Nodup := by
  induction attrs generalizing before with
  | nil =>
    rw [place, Except.ok.injEq]
    constructor
    · rintro rfl
      exact ⟨[], .nil, rfl, distinct⟩
    · rintro ⟨_, ⟨⟩, rfl, _⟩
      rfl
  | cons attr attrs ih =>
    rw [place_cons_eq_ok]
    constructor
    · rintro ⟨entry, found, free, placing⟩
      have distinct' : (((entry.1.2, entry.2) :: before).map Prod.fst).Nodup :=
        List.nodup_cons.mpr ⟨free, distinct⟩
      obtain ⟨located, all, rfl, nodup⟩ := (ih distinct').mp placing
      exact ⟨entry :: located, .cons found all, by simp [placed], nodup⟩
    · rintro ⟨_, all, rfl, nodup⟩
      cases all with
      | @cons _ entry _ located found all =>
        have again : (placed (entry :: located)).reverse ++ before =
            (placed located).reverse ++ (entry.1.2, entry.2) :: before := by
          simp [placed]
        rw [again] at nodup
        -- The places taken so far stay distinct from the one that is taken next.
        have later := (List.nodup_append.mp (List.map_append ▸ nodup)).2.1
        refine ⟨entry, found, (List.nodup_cons.mp later).1, ?_⟩
        exact (ih later).mpr ⟨located, all, again, again ▸ nodup⟩

/-- Placing succeeds exactly when every attribute is located and no place is taken twice. -/
theorem place_eq_ok : spec.place check attrs [] = .ok values ↔
    ∃ located, List.Forall₂ (Locates spec check) attrs located ∧
      values = (placed located).reverse ∧ ((placed located).map Prod.fst).Nodup := by
  rw [place_onto_eq_ok (by exact List.nodup_nil)]
  refine exists_congr fun located => and_congr_right fun _ => ?_
  rw [List.append_nil]
  refine and_congr_right ?_
  rintro rfl
  rw [List.map_reverse, List.nodup_reverse]

theorem mem_zipIdx_of_locates {located : List AttrEntry}
    (all : List.Forall₂ (Locates spec check) attrs located) :
    ∀ entry ∈ located, entry.1 ∈ spec.attrs.zipIdx := by
  induction all with
  | nil =>
    intro entry member
    cases member
  | cons found _ ih =>
    intro entry member
    cases member with
    | head => exact List.mem_of_find?_eq_some found.1
    | tail _ member => exact ih entry member

/-- Attributes in the order of the row, under their canonical names, are placed as they stand. -/
theorem place_named (member : spec ∈ table)
    (sublist : (given.map Prod.fst).Sublist spec.attrs.zipIdx)
    (passes : ∀ entry ∈ given, check entry.1.1 entry.1.1.name entry.2 = .ok entry.2) :
    spec.place check (named given) [] = .ok (placed given).reverse := by
  refine place_eq_ok.mpr ⟨given, ?_, rfl, nodup_places sublist⟩
  rw [named, List.forall₂_map_left_iff, List.forall₂_same]
  intro entry listed
  have inside : entry.1 ∈ spec.attrs.zipIdx := sublist.subset (List.mem_map_of_mem listed)
  exact ⟨find?_attr_name spec member entry.1 inside, passes entry listed⟩

end TagSpec

/-! ### Canonical spellings -/

/-- The value is spelled as its kind asks: an integer in plain decimal, a word as it is listed. -/
def AttrKind.IsCanonical : AttrKind → String → Prop
  | .int, value => ∃ n, value = Text.int32 n
  | .str, _ => True
  | .word words, value => value ∈ words

namespace AttrSpec

variable {a : AttrSpec} {key value value' : String}

/-- The canonical spelling of a value; a value that has none stays as it is. -/
def settle (a : AttrSpec) (value : String) : String :=
  (a.canonical a.name value).toOption.getD value

/-- A canonical spelling does not depend on the name that a tag uses for the attribute. -/
theorem canonical_eq_settle (spelled : a.canonical key value = .ok value') (key' : String) :
    a.canonical key' value = .ok (a.settle value) := by
  obtain ⟨name, kind⟩ := a
  cases kind with
  | str => rfl
  | int =>
    cases read : int? value with
    | none => simp [canonical, read] at spelled
    | some n => simp [settle, canonical, read, Except.toOption]
  | word words =>
    cases found : words.find? fun word => Text.sameLetters word value with
    | none => simp [canonical, found] at spelled
    | some word => simp [settle, canonical, found, Except.toOption]

/-- A canonical spelling is its own canonical spelling. -/
theorem canonical_self {spec : TagSpec} (member : spec ∈ TagSpec.table) (attr : a ∈ spec.attrs)
    (canon : a.kind.IsCanonical value) (key : String) : a.canonical key value = .ok value := by
  obtain ⟨name, kind⟩ := a
  cases kind with
  | str => rfl
  | int =>
    obtain ⟨n, rfl⟩ := canon
    simp [canonical, int?_int32]
  | word words =>
    have found := TagSpec.find?_word spec member _ attr value canon
    simp only [AttrKind.words] at found
    simp [canonical, found]

end AttrSpec

namespace TagSpec

open AttrEntry

variable {spec : TagSpec} {attrs attrs' out : List (String × String)} {given : List AttrEntry}

/-- Normalizing puts located attributes into the order of the row, under its names. -/
theorem normalize_eq_ok : spec.normalize attrs = .ok out ↔
    ∃ located, List.Forall₂ (Locates spec AttrSpec.canonical) attrs located ∧
      ((placed located).map Prod.fst).Nodup ∧
      out = named (spec.entries (placed located).reverse) := by
  simp only [normalize, bind_eq_ok, pure_eq_ok, place_eq_ok, arrange_eq_valued, valued,
    List.map_map]
  constructor
  · rintro ⟨_, ⟨located, all, rfl, distinct⟩, rfl⟩
    exact ⟨located, all, distinct, rfl⟩
  · rintro ⟨located, all, distinct, rfl⟩
    exact ⟨_, ⟨located, all, rfl, distinct⟩, rfl⟩

/-- The case of attribute names does not matter to their canonical form. -/
theorem normalize_upper (normal : spec.normalize attrs = .ok out) :
    spec.normalize (attrs.map fun attr => (Text.upper attr.1, attr.2)) = .ok out := by
  obtain ⟨located, all, distinct, rfl⟩ := normalize_eq_ok.mp normal
  refine normalize_eq_ok.mpr ⟨located, ?_, distinct, rfl⟩
  rw [List.forall₂_map_left_iff]
  refine all.imp fun attr entry found => ⟨?_, ?_⟩
  · -- Names are compared by their letters, which upper case keeps.
    simp only [Text.sameLetters_congr (Text.sameLetters_upper attr.1)]
    exact found.1
  · rw [AttrSpec.canonical_eq_settle found.2, ← AttrSpec.canonical_eq_settle found.2 attr.1]
    exact found.2

/-- Canonical attributes are their own canonical form. -/
theorem normalize_named (member : spec ∈ table)
    (sublist : (given.map Prod.fst).Sublist spec.attrs.zipIdx)
    (canon : ∀ entry ∈ given, entry.1.1.kind.IsCanonical entry.2) :
    spec.normalize (named given) = .ok (named given) := by
  have passes : ∀ entry ∈ given, entry.1.1.canonical entry.1.1.name entry.2 = .ok entry.2 := by
    intro entry listed
    have inside := sublist.subset (List.mem_map_of_mem listed)
    exact AttrSpec.canonical_self member (List.fst_mem_of_mem_zipIdx inside) (canon entry listed) _
  simp only [normalize, place_named member sublist passes, bind_eq_ok, pure_eq_ok]
  refine ⟨_, rfl, ?_⟩
  rw [arrange_eq_valued, entries_placed sublist, valued, named, List.map_map]
  rfl

end TagSpec

/-- The tag is spelled as a row of the table spells it: under its name, with attributes of the row
in their order, all values canonical. -/
def Tag.IsCanonical (tag : Tag) (spec : TagSpec) : Prop :=
  spec ∈ TagSpec.table ∧ tag.name = spec.name ∧
    ∃ given : List (AttrSpec × String), (given.map Prod.fst).Sublist spec.attrs ∧
      (∀ a ∈ given, a.1.kind.IsCanonical a.2) ∧
      tag.attrs = given.map fun a => (a.1.name, a.2)

private theorem exists_entries {keys : List (AttrSpec × Nat)} {given : List (AttrSpec × String)}
    (same : given.map Prod.fst = keys.map Prod.fst) :
    ∃ entries : List AttrEntry, entries.map Prod.fst = keys ∧ AttrEntry.valued entries = given := by
  induction keys generalizing given with
  | nil => exact ⟨[], rfl, (List.map_eq_nil_iff.mp same).symm⟩
  | cons k keys ih =>
    obtain ⟨⟨a, value⟩, rest, rfl, rfl, later⟩ := List.map_eq_cons_iff.mp same
    obtain ⟨entries, rfl, rfl⟩ := ih later
    exact ⟨(k, value) :: entries, rfl, rfl⟩

/-- The entries of a canonical tag. -/
theorem Tag.IsCanonical.entries {tag : Tag} {spec : TagSpec} (canon : tag.IsCanonical spec) :
    ∃ given : List AttrEntry, (given.map Prod.fst).Sublist spec.attrs.zipIdx ∧
      (∀ entry ∈ given, entry.1.1.kind.IsCanonical entry.2) ∧
      tag = ⟨spec.name, AttrEntry.named given⟩ := by
  obtain ⟨name, attrs⟩ := tag
  obtain ⟨_, rfl, given, sublist, values, rfl⟩ := canon
  -- The attributes given are a sublist of the row, so each can be given its place.
  rw [← List.zipIdx_map_fst 0 spec.attrs, List.sublist_map_iff] at sublist
  obtain ⟨keys, sublist, same⟩ := sublist
  obtain ⟨entries, rfl, rfl⟩ := exists_entries same
  refine ⟨entries, sublist, fun entry listed => ?_, ?_⟩
  · exact values _ (List.mem_map_of_mem listed)
  · rw [AttrEntry.valued, List.map_map]
    rfl

/-- Normalizing leaves a canonical tag as it is. -/
theorem Tag.IsCanonical.normalize {tag : Tag} {spec : TagSpec} (canon : tag.IsCanonical spec) :
    TagSpec.ofName? tag.name = some spec ∧ spec.normalize tag.attrs = .ok tag.attrs := by
  have member := canon.1
  obtain ⟨given, sublist, values, rfl⟩ := canon.entries
  exact ⟨TagSpec.ofName?_name spec member, TagSpec.normalize_named member sublist values⟩

end NovelChart
