import NovelChart.Markup.Block
import NovelChart.Proofs.Encoding
import NovelChart.Proofs.Tag

/-!
# The binary form of a tag

The head of a tag is everything up to the tokens that it encloses: a break of some kind, or a code
with a presence mask and the values of the attributes that are present. The mask determines which
entries of the row follow, and the entries determine the mask.

## Main definitions

* `Markup.AttrSpelled`, `Markup.HeadSpelled`: the formats of attribute values and of heads
* `Tag.Survives`: the texts among the attributes survive the encoding

## Main results

* `Markup.testBit_attrMask`: the presence mask has the bits of the places taken
* `Markup.reads_attrs`: the attributes behind a mask are read back as entries
* `Markup.HeadSpelled.encode_eq`, `Markup.spelled_of_encodeHead`: writing and the format agree on
  canonical tags
* `Markup.encodeHead_normalize`: every tag that can be written has the bytes of its canonical form
-/

namespace NovelChart

/-- Adding a power of two to a number without that bit sets the bit. -/
theorem testBit_two_pow_add {i x : Nat} (clear : x.testBit i = false) (j : Nat) :
    (2 ^ i + x).testBit j = (decide (j = i) || x.testBit j) := by
  induction i generalizing x j with
  | zero =>
    rw [Nat.testBit_zero, decide_eq_false_iff_not] at clear
    have half : (2 ^ 0 + x) / 2 = x / 2 := by omega
    cases j with
    | zero =>
      rw [Nat.testBit_zero, Nat.testBit_zero]
      grind
    | succ j =>
      rw [Nat.testBit_succ, half, Nat.testBit_succ]
      simp
  | succ i ih =>
    have half : (2 ^ (i + 1) + x) / 2 = 2 ^ i + x / 2 := by omega
    cases j with
    | zero =>
      simp [Nat.testBit_zero]
      omega
    | succ j =>
      rw [Nat.testBit_succ, half, ih (Nat.testBit_succ x i ▸ clear), Nat.testBit_succ]
      simp

/-- The texts among the attributes of the tag survive the encoding. -/
def Tag.Survives (e : Encoding) (tag : Tag) : Prop :=
  ∀ spec, TagSpec.ofName? tag.name = some spec → ∀ attr ∈ tag.attrs, ∀ a ∈ spec.attrs,
    Text.sameLetters a.name attr.1 = true → a.kind = .str → e.Survives attr.2

namespace Markup

open AttrEntry

variable {e : Encoding} {spec : TagSpec} {given : List AttrEntry} {values : List (Nat × String)}
  {bytes : List UInt8}

/-! ### The presence mask -/

/-- The presence mask has the bits of the places taken. -/
theorem testBit_attrMask (distinct : (values.map Prod.fst).Nodup) (j : Nat) :
    (attrMask values).testBit j = decide (j ∈ values.map Prod.fst) := by
  induction values generalizing j with
  | nil => simp [attrMask]
  | cons first rest ih =>
    obtain ⟨i, value⟩ := first
    -- The bit of a new place is still clear, so that adding it sets it.
    obtain ⟨fresh, distinct⟩ := List.nodup_cons.mp distinct
    have clear : (attrMask rest).testBit i = false := by
      rw [ih distinct]
      exact decide_eq_false fresh
    have sum : attrMask ((i, value) :: rest) = 2 ^ i + attrMask rest := by
      change 1 <<< i + attrMask rest = 2 ^ i + attrMask rest
      rw [Nat.one_shiftLeft]
    rw [sum, testBit_two_pow_add clear, ih distinct, List.map_cons, ← Bool.decide_or,
      decide_eq_decide, List.mem_cons]

/-- The mask only depends on which places are taken. -/
theorem attrMask_congr {values' : List (Nat × String)} (distinct : (values.map Prod.fst).Nodup)
    (distinct' : (values'.map Prod.fst).Nodup)
    (same : ∀ i, i ∈ values.map Prod.fst ↔ i ∈ values'.map Prod.fst) :
    attrMask values = attrMask values' := by
  refine Nat.eq_of_testBit_eq fun j => ?_
  rw [testBit_attrMask distinct, testBit_attrMask distinct', decide_eq_decide]
  exact same j

theorem attrMask_lt (sublist : (given.map Prod.fst).Sublist spec.attrs.zipIdx) :
    attrMask (placed given) < 2 ^ spec.attrs.length := by
  refine Nat.lt_pow_two_of_testBit _ fun j high => ?_
  rw [testBit_attrMask (TagSpec.nodup_places sublist)]
  refine decide_eq_false fun taken => ?_
  obtain ⟨_, listed, rfl⟩ := List.mem_map.mp taken
  obtain ⟨entry, member, rfl⟩ := List.mem_map.mp listed
  have inside : entry.1 ∈ spec.attrs.zipIdx := sublist.subset (List.mem_map_of_mem member)
  have low := List.snd_lt_of_mem_zipIdx inside
  simp only at high
  omega

/-- The mask of a row fits its byte. -/
theorem toNat_attrMask (member : spec ∈ TagSpec.table)
    (sublist : (given.map Prod.fst).Sublist spec.attrs.zipIdx) :
    (UInt8.ofNat (attrMask (placed given))).toNat = attrMask (placed given) := by
  refine UInt8.toNat_ofNat_of_lt' (Nat.lt_of_lt_of_le (attrMask_lt sublist) ?_)
  exact Nat.pow_le_pow_right (by decide) (TagSpec.length_attrs_le spec member)

/-- The bits of the mask choose the entries that it was made of. -/
theorem filter_testBit_attrMask (sublist : (given.map Prod.fst).Sublist spec.attrs.zipIdx) :
    spec.attrs.zipIdx.filter (fun k => (attrMask (placed given)).testBit k.2) =
      given.map Prod.fst := by
  have distinct := TagSpec.nodup_places sublist
  conv_rhs => rw [← TagSpec.entries_placed sublist, TagSpec.map_fst_entries]
  congr 1
  funext k
  rw [testBit_attrMask distinct, Bool.eq_iff_iff, decide_eq_true_iff, lookup_isSome_iff,
    List.map_reverse, List.mem_reverse]

/-- Entries chosen by a mask make up the mask again. -/
theorem attrMask_of_filter {mask : Nat} (narrow : mask >>> spec.attrs.length = 0)
    (chosen : given.map Prod.fst = spec.attrs.zipIdx.filter fun k => mask.testBit k.2) :
    attrMask (placed given) = mask := by
  have sublist : (given.map Prod.fst).Sublist spec.attrs.zipIdx := by
    rw [chosen]
    exact List.filter_sublist
  refine Nat.eq_of_testBit_eq fun j => ?_
  have places : (placed given).map Prod.fst = (given.map Prod.fst).map Prod.snd := by
    simp [placed]
  rw [testBit_attrMask (TagSpec.nodup_places sublist), places, chosen, Bool.eq_iff_iff,
    decide_eq_true_iff, List.mem_map]
  constructor
  · rintro ⟨k, listed, rfl⟩
    exact (List.mem_filter.mp listed).2
  · intro set
    -- A bit beyond the row would be left over in the shifted mask.
    have low : j < spec.attrs.length := by
      by_contra high
      have shifted := congrArg (Nat.testBit · (j - spec.attrs.length)) narrow
      simp only [Nat.testBit_shiftRight, Nat.zero_testBit] at shifted
      rw [Nat.add_sub_cancel' (by omega), set] at shifted
      cases shifted
    have listed : (spec.attrs[j], j) ∈ spec.attrs.zipIdx :=
      List.mem_zipIdx_iff_getElem?.mpr (List.getElem?_eq_getElem low)
    exact ⟨_, List.mem_filter.mpr ⟨listed, set⟩, rfl⟩

/-! ### Attribute values -/

variable {a : AttrSpec} {tag value : String}

/-- The bytes stand for a value of the attribute. -/
def AttrSpelled (e : Encoding) (a : AttrSpec) : Format String := fun bytes value =>
  match a.kind with
  | .int => ∃ n, bytes = Bytes.i32 n ∧ value = Text.int32 n
  | .str => e.Spelled bytes value
  | .word words => ∃ i : UInt8, bytes = [i] ∧ words[i.toNat]? = some value

/-- The bytes stand for the value of an entry. -/
def EntrySpelled (e : Encoding) : Format AttrEntry := fun bytes entry =>
  AttrSpelled e entry.1.1 bytes entry.2

theorem reads_attr (r : Reading) (start : Cursor) (a : AttrSpec) :
    Reads (readAttr r start a) (AttrSpelled r.encoding a) := by
  obtain ⟨name, kind⟩ := a
  cases kind with
  | int => exact Reads.i32.map Text.int32
  | str => exact Reads.text r
  | word words =>
    intro c value c'
    simp only [readAttr, bind_eq_ok, Prod.exists, Reads.u8 _ _ _, AttrSpelled]
    constructor
    · intro read
      obtain ⟨i, c₁, ⟨_, rfl, passes⟩, read⟩ := read
      split at read
      · next listed =>
        cases read
        exact ⟨_, ⟨i, rfl, listed⟩, passes⟩
      · cases read
    · intro spelled
      obtain ⟨_, ⟨i, rfl, listed⟩, passes⟩ := spelled
      refine ⟨i, c', ⟨_, rfl, passes⟩, ?_⟩
      rw [listed]
      rfl

/-- The attributes behind a mask are read as entries, one for each bit that is set. -/
theorem reads_attrs (r : Reading) (start : Cursor) (mask i : Nat) (row : List AttrSpec) :
    Reads (readAttrs r start mask i row) fun bytes attrs =>
      ∃ given, given.map Prod.fst = (row.zipIdx i).filter (fun k => mask.testBit k.2) ∧
        Format.Many (EntrySpelled r.encoding) bytes given ∧ attrs = named given := by
  induction row generalizing i with
  | nil =>
    intro c attrs c'
    simp only [readAttrs, Except.ok.injEq, Prod.mk.injEq, List.zipIdx_nil, List.filter_nil,
      List.map_eq_nil_iff]
    constructor
    · rintro ⟨rfl, rfl⟩
      exact ⟨[], ⟨[], rfl, .nil, rfl⟩, Cursor.passes_nil.mpr rfl⟩
    · intro spelled
      obtain ⟨_, ⟨_, rfl, many, rfl⟩, passes⟩ := spelled
      cases many
      exact ⟨rfl, (Cursor.passes_nil.mp passes).symm⟩
  | cons a row ih =>
    intro c attrs c'
    rw [readAttrs, List.zipIdx_cons]
    split
    · next set =>
      simp only [bind_eq_ok, pure_eq_ok, Prod.exists, reads_attr _ _ _ _ _ _, ih _ _ _ _,
        Prod.mk.injEq, List.filter_cons, set, if_true]
      constructor
      · intro read
        obtain ⟨value, _, ⟨first, spelled, passes⟩, _, _, ⟨more, ⟨given, chosen, many, rfl⟩,
          passes'⟩, rfl, rfl⟩ := read
        refine ⟨first ++ more, ⟨((a, i), value) :: given, ?_, .cons spelled many, rfl⟩,
          passes.append passes'⟩
        rw [List.map_cons, chosen]
      · intro spelled
        obtain ⟨_, ⟨given, chosen, many, rfl⟩, passes⟩ := spelled
        cases many with
        | nil => cases chosen
        | @cons first entry more given spelled many =>
          obtain ⟨⟨a', i'⟩, value⟩ := entry
          obtain ⟨⟨rfl, rfl⟩, later⟩ := List.cons_eq_cons.mp chosen
          obtain ⟨c₁, passes₁, passes₂⟩ := Cursor.passes_append.mp passes
          exact ⟨value, c₁, ⟨_, spelled, passes₁⟩, _, c', ⟨_, ⟨given, later, many, rfl⟩, passes₂⟩,
            rfl, rfl⟩
    · next clear =>
      -- An attribute without its bit takes no bytes and makes no entry.
      rw [ih, List.filter_cons_of_neg (by simpa using clear)]

/-- A value is written with the bytes that stand for it. -/
theorem encodeAttr_of_spelled (member : spec ∈ TagSpec.table) (attr : a ∈ spec.attrs)
    (spelled : AttrSpelled e a bytes value) : encodeAttr e tag a value = .ok bytes := by
  obtain ⟨name, kind⟩ := a
  cases kind with
  | int =>
    obtain ⟨n, rfl, rfl⟩ := spelled
    simp [encodeAttr, AttrSpec.int?_int32]
  | str =>
    obtain ⟨body, _, rfl, decoded⟩ := spelled
    simp only [encodeAttr, bind_eq_ok, pure_eq_ok]
    exact ⟨body, Encoding.write_eq_ok.mpr (Encoding.encode_of_decode decoded), rfl⟩
  | word words =>
    -- No earlier word has the same letters, so the place is found again.
    obtain ⟨i, rfl, listed⟩ := spelled
    obtain ⟨_, found⟩ := TagSpec.findIdx?_word member attr rfl listed
    simp [encodeAttr, found]

/-- What is written for a canonical value stands for it, if it survives where it is a text. -/
theorem spelled_of_encodeAttr (member : spec ∈ TagSpec.table) (attr : a ∈ spec.attrs)
    (written : encodeAttr e tag a value = .ok bytes) (canon : a.kind.IsCanonical value)
    (survives : a.kind = .str → e.Survives value) (small : bytes.length < 2 ^ 32) :
    AttrSpelled e a bytes value := by
  obtain ⟨name, kind⟩ := a
  cases kind with
  | int =>
    obtain ⟨n, rfl⟩ := canon
    simp only [encodeAttr, AttrSpec.int?_int32] at written
    cases written
    exact ⟨n, rfl, rfl⟩
  | str =>
    simp only [encodeAttr, bind_eq_ok, pure_eq_ok] at written
    obtain ⟨body, written, rfl⟩ := written
    exact Encoding.spelled_of_write written (survives rfl) small
  | word words =>
    obtain ⟨i, listed⟩ := List.getElem?_of_mem canon
    obtain ⟨few, found⟩ := TagSpec.findIdx?_word member attr rfl listed
    simp only [encodeAttr, found] at written
    cases written
    exact ⟨_, rfl, by rwa [UInt8.toNat_ofNat_of_lt' few]⟩

/-- A value that can be written has a canonical spelling, with the same bytes. -/
theorem encodeAttr_settle (written : encodeAttr e tag a value = .ok bytes) (key tag' : String) :
    a.canonical key value = .ok (a.settle value) ∧
      encodeAttr e tag' a (a.settle value) = .ok bytes := by
  obtain ⟨name, kind⟩ := a
  cases kind with
  | int =>
    cases read : AttrSpec.int? value with
    | none => simp [encodeAttr, read] at written
    | some n =>
      simp only [encodeAttr, read] at written
      cases written
      simp [AttrSpec.settle, AttrSpec.canonical, read, encodeAttr, Except.toOption,
        AttrSpec.int?_int32]
  | str => exact ⟨rfl, written⟩
  | word words =>
    cases found : words.find? fun word => Text.sameLetters word value with
    | none =>
      have absent : (words.findIdx? fun word => Text.sameLetters word value) = none := by
        rw [List.findIdx?_eq_none_iff]
        simpa using List.find?_eq_none.mp found
      simp [encodeAttr, absent] at written
    | some word =>
      have same : Text.sameLetters word value = true := by
        have matched := List.find?_some found
        exact matched
      have settled : AttrSpec.settle ⟨name, .word words⟩ value = word := by
        simp [AttrSpec.settle, AttrSpec.canonical, found, Except.toOption]
      rw [settled]
      constructor
      · simp [AttrSpec.canonical, found]
      · -- The word has the letters of the value, so both are found at the same place.
        simp only [encodeAttr] at written ⊢
        simp only [Text.sameLetters_congr same]
        split at written
        · next place => simpa [place] using written
        · cases written

theorem encodeAttrs_of_many (member : spec ∈ TagSpec.table)
    (inside : ∀ entry ∈ given, entry.1 ∈ spec.attrs.zipIdx)
    (many : Format.Many (EntrySpelled e) bytes given) :
    encodeAttrs e tag (valued given) = .ok bytes := by
  induction many with
  | nil => rfl
  | @cons _ entry _ _ spelled _ ih =>
    have attr := List.fst_mem_of_mem_zipIdx (inside entry List.mem_cons_self)
    simp only [valued, List.map_cons, encodeAttrs, encodeAttr_of_spelled member attr spelled,
      bind_eq_ok, pure_eq_ok]
    exact ⟨_, rfl, _, ih fun entry listed => inside entry (List.mem_cons_of_mem _ listed), rfl⟩

theorem many_of_encodeAttrs (member : spec ∈ TagSpec.table)
    (inside : ∀ entry ∈ given, entry.1 ∈ spec.attrs.zipIdx)
    (canon : ∀ entry ∈ given, entry.1.1.kind.IsCanonical entry.2)
    (survive : ∀ entry ∈ given, entry.1.1.kind = .str → e.Survives entry.2)
    (written : encodeAttrs e tag (valued given) = .ok bytes) (small : bytes.length < 2 ^ 32) :
    Format.Many (EntrySpelled e) bytes given := by
  induction given generalizing bytes with
  | nil =>
    cases written
    exact .nil
  | cons entry given ih =>
    simp only [valued, List.map_cons, encodeAttrs, bind_eq_ok, pure_eq_ok] at written
    obtain ⟨first, written₁, more, written₂, rfl⟩ := written
    rw [List.length_append] at small
    have attr := List.fst_mem_of_mem_zipIdx (inside entry List.mem_cons_self)
    refine .cons ?_ ?_
    · exact spelled_of_encodeAttr member attr written₁ (canon entry List.mem_cons_self)
        (survive entry List.mem_cons_self) (by omega)
    · exact ih (fun entry listed => inside entry (List.mem_cons_of_mem _ listed))
        (fun entry listed => canon entry (List.mem_cons_of_mem _ listed))
        (fun entry listed => survive entry (List.mem_cons_of_mem _ listed)) written₂ (by omega)

/-- An entry with its value in canonical spelling. -/
def settled (entry : AttrEntry) : AttrEntry :=
  (entry.1, entry.1.1.settle entry.2)

/-- Values in canonical spelling have the same bytes. -/
theorem encodeAttrs_settled (written : encodeAttrs e tag (valued given) = .ok bytes)
    (tag' : String) :
    (∀ entry ∈ given, ∀ key, entry.1.1.canonical key entry.2 = .ok (settled entry).2) ∧
      encodeAttrs e tag' (valued (given.map settled)) = .ok bytes := by
  induction given generalizing bytes with
  | nil => exact ⟨by simp, written⟩
  | cons entry given ih =>
    simp only [valued, List.map_cons, encodeAttrs, bind_eq_ok, pure_eq_ok] at written
    obtain ⟨first, written₁, more, written₂, rfl⟩ := written
    obtain ⟨passes, same⟩ := ih written₂
    constructor
    · intro entry member key
      cases member with
      | head => exact (encodeAttr_settle written₁ key tag').1
      | tail _ member => exact passes entry member key
    · have first := (encodeAttr_settle written₁ tag tag').2
      simp only [valued, List.map_cons, encodeAttrs, bind_eq_ok, pure_eq_ok]
      exact ⟨_, first, _, same, rfl⟩

/-! ### Heads -/

/-- The bytes are the head of a tag of this row, with these entries. -/
def HeadSpelled (e : Encoding) (spec : TagSpec) : Format (List AttrEntry) := fun bytes given =>
  (given.map Prod.fst).Sublist spec.attrs.zipIdx ∧
    match spec.code with
    | .brk kind => bytes = [breakToken, kind]
    | .tag code => ∃ body, Format.Many (EntrySpelled e) body given ∧
        bytes = [tagToken, code, UInt8.ofNat (attrMask (placed given))] ++ body

/-- What writing a head asks for: a row of the right sort and attributes that it can place. -/
theorem encodeHead_eq_ok {tag : Tag} {paired : Bool} :
    encodeHead e tag paired = .ok bytes ↔
      ∃ spec located, TagSpec.ofName? tag.name = some spec ∧ spec.paired = paired ∧
        List.Forall₂ (TagSpec.Locates spec fun _ _ value => .ok value) tag.attrs located ∧
        ((placed located).map Prod.fst).Nodup ∧
        encodePlaced e tag spec (placed located).reverse = .ok bytes := by
  rw [encodeHead]
  split
  · next missing => simp [missing]
  · next spec found =>
    rw [refuse_eq_ok]
    constructor
    · rintro ⟨sort, written⟩
      split at written
      · cases written
      · next placing =>
        obtain ⟨located, all, rfl, distinct⟩ := TagSpec.place_eq_ok.mp placing
        exact ⟨spec, located, found, by simpa using sort, all, distinct, written⟩
    · rintro ⟨spec', located, found', rfl, all, distinct, written⟩
      obtain rfl : spec = spec' := Option.some.inj (found.symm.trans found')
      have placing := TagSpec.place_eq_ok.mpr ⟨located, all, rfl, distinct⟩
      exact ⟨by simp, by rw [placing]; exact written⟩

/-- Writing the head of a tag that is spelled with entries of a row, in their order. -/
theorem encodeHead_named (member : spec ∈ TagSpec.table)
    (sublist : (given.map Prod.fst).Sublist spec.attrs.zipIdx) :
    encodeHead e ⟨spec.name, named given⟩ spec.paired =
      encodePlaced e ⟨spec.name, named given⟩ spec (placed given).reverse := by
  have placing : spec.place (fun _ _ value => .ok value) (named given) [] =
      .ok (placed given).reverse := TagSpec.place_named member sublist fun _ _ => rfl
  simp [encodeHead, TagSpec.ofName?_name spec member, placing]

theorem attrMask_reverse (distinct : (values.map Prod.fst).Nodup) :
    attrMask values.reverse = attrMask values := by
  refine attrMask_congr ?_ distinct fun i => ?_
  · rwa [List.map_reverse, List.nodup_reverse]
  · rw [List.map_reverse, List.mem_reverse]

/-- A row that is written as a break leaves no room for entries. -/
theorem eq_nil_of_brk {kind : UInt8} (member : spec ∈ TagSpec.table) (code : spec.code = .brk kind)
    (inside : ∀ entry ∈ given, entry.1 ∈ spec.attrs.zipIdx) : given = [] := by
  refine List.eq_nil_iff_forall_not_mem.mpr fun entry listed => ?_
  have attr := List.fst_mem_of_mem_zipIdx (inside entry listed)
  rw [(TagSpec.attrs_of_brk member code).1] at attr
  cases attr

/-- A tag is written with the bytes that stand for its head. -/
theorem HeadSpelled.encode_eq (member : spec ∈ TagSpec.table)
    (spelled : HeadSpelled e spec bytes given) :
    encodeHead e ⟨spec.name, named given⟩ spec.paired = .ok bytes := by
  obtain ⟨sublist, spelled⟩ := spelled
  have inside : ∀ entry ∈ given, entry.1 ∈ spec.attrs.zipIdx := fun entry listed =>
    sublist.subset (List.mem_map_of_mem listed)
  rw [encodeHead_named member sublist, encodePlaced]
  cases code : spec.code with
  | brk kind =>
    -- A break is written without a mask, which is right since it has no entries.
    rw [code] at spelled
    obtain rfl := eq_nil_of_brk member code inside
    rw [spelled]
    rfl
  | tag code =>
    rw [code] at spelled
    obtain ⟨body, many, rfl⟩ := spelled
    simp only [TagSpec.arrange_eq_valued, TagSpec.entries_placed sublist, bind_eq_ok,
      pure_eq_ok, attrMask_reverse (TagSpec.nodup_places sublist)]
    exact ⟨body, encodeAttrs_of_many member inside many, rfl⟩

/-- What is written for a canonical tag is its head, if the texts among its attributes survive. -/
theorem spelled_of_encodeHead {tag : Tag} (canon : tag.IsCanonical spec) (survives : tag.Survives e)
    (written : encodeHead e tag spec.paired = .ok bytes) (small : bytes.length < 2 ^ 32) :
    ∃ given, tag = ⟨spec.name, named given⟩ ∧ HeadSpelled e spec bytes given := by
  have member := canon.1
  obtain ⟨given, sublist, values, rfl⟩ := canon.entries
  refine ⟨given, rfl, sublist, ?_⟩
  rw [encodeHead_named member sublist, encodePlaced] at written
  cases code : spec.code with
  | brk kind =>
    simp only [code] at written
    split at written
    · cases written
      rfl
    · cases written
  | tag code' =>
    rw [code] at written
    simp only [TagSpec.arrange_eq_valued, TagSpec.entries_placed sublist, bind_eq_ok, pure_eq_ok,
      attrMask_reverse (TagSpec.nodup_places sublist)] at written
    obtain ⟨body, written, rfl⟩ := written
    rw [List.length_append] at small
    have inside : ∀ entry ∈ given, entry.1 ∈ spec.attrs.zipIdx := fun entry listed =>
      sublist.subset (List.mem_map_of_mem listed)
    refine ⟨body, many_of_encodeAttrs member inside values ?_ written (by omega), rfl⟩
    intro entry listed kind
    exact survives spec (TagSpec.ofName?_name spec member) (entry.1.1.name, entry.2)
      (List.mem_map.mpr ⟨entry, listed, rfl⟩) entry.1.1
      (List.fst_mem_of_mem_zipIdx (inside entry listed)) (Text.sameLetters_self _) kind

section Settled

variable {located : List AttrEntry}

theorem places_settled : (placed (located.map settled)).map Prod.fst =
    (placed located).map Prod.fst := by
  simp [placed, settled]

theorem nodup_settled (distinct : ((placed located).map Prod.fst).Nodup) :
    ((placed (located.map settled)).map Prod.fst).Nodup := by
  rwa [places_settled]

theorem mem_zipIdx_settled (inside : ∀ entry ∈ located, entry.1 ∈ spec.attrs.zipIdx) :
    ∀ entry ∈ located.map settled, entry.1 ∈ spec.attrs.zipIdx := by
  intro _ listed
  obtain ⟨entry, member, rfl⟩ := List.mem_map.mp listed
  exact inside entry member

/-- Settling values commutes with putting the entries into the order of the row. -/
theorem entries_settled (inside : ∀ entry ∈ located, entry.1 ∈ spec.attrs.zipIdx)
    (distinct : ((placed located).map Prod.fst).Nodup) :
    spec.entries (placed (located.map settled)).reverse =
      (spec.entries (placed located).reverse).map settled := by
  rw [TagSpec.entries, TagSpec.entries, List.map_filterMap]
  refine List.filterMap_congr fun k member => ?_
  -- The same places are taken, each by the settled value.
  have look : (placed (located.map settled)).reverse.lookup k.2 =
      ((placed located).reverse.lookup k.2).map k.1.settle := by
    ext value
    rw [TagSpec.lookup_placed member (mem_zipIdx_settled inside) (nodup_settled distinct),
      Option.map_eq_some_iff, List.mem_map]
    constructor
    · rintro ⟨⟨k', value'⟩, listed, eq⟩
      obtain ⟨rfl, rfl⟩ := Prod.mk.inj eq
      exact ⟨value', (TagSpec.lookup_placed member inside distinct).mpr listed, rfl⟩
    · rintro ⟨value', found, rfl⟩
      exact ⟨_, (TagSpec.lookup_placed member inside distinct).mp found, rfl⟩
  rw [look, Option.map_map, Option.map_map]
  rfl

theorem sublist_settled (inside : ∀ entry ∈ located, entry.1 ∈ spec.attrs.zipIdx)
    (distinct : ((placed located).map Prod.fst).Nodup) :
    (((spec.entries (placed located).reverse).map settled).map Prod.fst).Sublist
      spec.attrs.zipIdx := by
  rw [← entries_settled inside distinct]
  exact TagSpec.entries_sublist

/-- Settled values are located where the values are, and they are canonical. -/
theorem locates_settled {attrs : List (String × String)}
    (all : List.Forall₂ (TagSpec.Locates spec fun _ _ value => .ok value) attrs located)
    (passes : ∀ entry ∈ located, ∀ key, entry.1.1.canonical key entry.2 = .ok (settled entry).2) :
    List.Forall₂ (TagSpec.Locates spec AttrSpec.canonical) attrs (located.map settled) := by
  induction all with
  | nil => exact .nil
  | @cons attr entry attrs located found _ ih =>
    refine .cons ⟨found.1, ?_⟩ (ih fun entry listed => passes entry (List.mem_cons_of_mem _ listed))
    have same : attr.2 = entry.2 := Except.ok.inj found.2
    rw [same]
    exact passes entry List.mem_cons_self attr.1

/-- Placed values that can be written have canonical spellings, which are written alike. -/
theorem encodePlaced_settled {tag : Tag} (member : spec ∈ TagSpec.table)
    (inside : ∀ entry ∈ located, entry.1 ∈ spec.attrs.zipIdx)
    (distinct : ((placed located).map Prod.fst).Nodup)
    (written : encodePlaced e tag spec (placed located).reverse = .ok bytes) (tag' : Tag) :
    (∀ entry ∈ located, ∀ key, entry.1.1.canonical key entry.2 = .ok (settled entry).2) ∧
      encodePlaced e tag' spec
        (placed ((spec.entries (placed located).reverse).map settled)).reverse = .ok bytes := by
  rw [encodePlaced] at written
  split at written
  · next kind code =>
    obtain rfl := eq_nil_of_brk member code inside
    have none : spec.entries (placed ([] : List AttrEntry)).reverse = [] := by
      simp [TagSpec.entries, placed]
    rw [none, encodePlaced, code]
    exact ⟨by simp, written⟩
  · next code eq =>
    simp only [TagSpec.arrange_eq_valued, bind_eq_ok, pure_eq_ok] at written
    obtain ⟨body, written, rfl⟩ := written
    obtain ⟨passes, same⟩ := encodeAttrs_settled written tag'.name
    have mem_entries : ∀ entry, entry ∈ spec.entries (placed located).reverse ↔ entry ∈ located :=
      fun _ => TagSpec.mem_entries inside distinct
    refine ⟨fun entry listed => passes entry ((mem_entries entry).mpr listed), ?_⟩
    have sublist := sublist_settled inside distinct
    -- Neither the order of the attributes nor their spelling changes which places are taken.
    have mask : attrMask (placed ((spec.entries (placed located).reverse).map settled)).reverse =
        attrMask (placed located).reverse := by
      rw [attrMask_reverse (TagSpec.nodup_places sublist), attrMask_reverse distinct]
      refine attrMask_congr (TagSpec.nodup_places sublist) distinct fun i => ?_
      rw [places_settled]
      generalize spec.entries (placed located).reverse = given at mem_entries
      simp only [placed, List.map_map, List.mem_map, Function.comp, mem_entries]
    simp only [encodePlaced, eq, TagSpec.arrange_eq_valued, TagSpec.entries_placed sublist, mask,
      bind_eq_ok, pure_eq_ok]
    exact ⟨body, same, rfl⟩

end Settled

/-- Every tag that can be written has a canonical form, and it is written with the same bytes. -/
theorem encodeHead_normalize {tag : Tag} {paired : Bool}
    (written : encodeHead e tag paired = .ok bytes) :
    ∃ spec attrs, TagSpec.ofName? tag.name = some spec ∧ spec.paired = paired ∧
      spec.normalize tag.attrs = .ok attrs ∧
      encodeHead e ⟨spec.name, attrs⟩ paired = .ok bytes := by
  obtain ⟨spec, located, found, rfl, all, distinct, written⟩ := encodeHead_eq_ok.mp written
  have member := TagSpec.mem_table_of_ofName? found
  have inside := TagSpec.mem_zipIdx_of_locates all
  have settles := encodePlaced_settled member inside distinct written
  refine ⟨spec, named ((spec.entries (placed located).reverse).map settled), found, rfl, ?_, ?_⟩
  · refine TagSpec.normalize_eq_ok.mpr ⟨located.map settled, locates_settled all (settles tag).1,
      nodup_settled distinct, ?_⟩
    rw [entries_settled inside distinct]
  · rw [encodeHead_named member (sublist_settled inside distinct)]
    exact (settles _).2

end Markup

end NovelChart
