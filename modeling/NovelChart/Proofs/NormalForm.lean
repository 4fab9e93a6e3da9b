import NovelChart.Proofs.Saving

/-!
# The normal form of text blocks

A text block can leave the program in two ways, as bytes and as a script, and neither keeps how it
was put together: comments and empty runs vanish, runs of text that meet are joined, and tags come
back as the table spells them. Encoding and decoding, printing and compiling each have their own
part in this, with their own look at the table. Both ways lead to one normal form, which is stated
here without reference to any of them.

## Main definitions

* `AttrKind.tabular`, `Tag.tabular`: values and tags as the table spells them
* `Token.normalAll`, `TextBlock.normal`: the normal form of tokens and of a block

## Main results

* `Tag.settle_eq_tabular`: a tag that can be written is settled as the table spells it
* `Token.gather_settleAll`: settled tokens are in normal form
* `Token.writtenAll_normalAll`: the normal form has no other characters
* `TextBlock.ofBytes_eq_ok`: the block that a byte string holds
* `TextBlock.normal_both_ways`: bytes and scripts are read as the normal form
-/

namespace NovelChart

/-! ### Normal forms -/

/-- A value as the table spells it: an integer in plain decimal, a word as it is listed. -/
def AttrKind.tabular : AttrKind → String → String
  | .str, value => value
  | .int, value => ((AttrSpec.int? value).map Text.int32).getD value
  | .word words, value => (words.find? fun word => Text.sameLetters word value).getD value

/-- A tag as the table spells it: under its name there, with its attributes in the order of the
row. -/
def Tag.tabular (tag : Tag) : Tag :=
  match TagSpec.ofName? tag.name with
  | none => tag
  | some spec => ⟨spec.name, spec.attrs.filterMap fun a =>
      (tag.attr? a.name).map fun value => (a.name, a.kind.tabular value)⟩

namespace Token

mutual

/-- The normal form of a token. Nothing is left of comments and empty runs. -/
def normal : Token → Option Token
  | text run => if run = "" then none else some (text run)
  | lineBreak => some lineBreak
  | pageBreak => some pageBreak
  | comment _ => none
  | mark tag => some (mark tag.tabular)
  | span tag content => some (span tag.tabular (normalAll content))

/-- The normal form of tokens, in which no two runs meet. -/
def normalAll : List Token → List Token
  | [] => []
  | t :: ts =>
    match t.normal with
    | some t => t.join (normalAll ts)
    | none => normalAll ts

end

end Token

/-- The normal form of a block. -/
def TextBlock.normal (block : TextBlock) : TextBlock :=
  { block with tokens := Token.normalAll block.tokens }

/-! ### Tags -/

theorem AttrSpec.canonical_eq_tabular {a : AttrSpec} {key value value' : String}
    (spelled : a.canonical key value = .ok value') : value' = a.kind.tabular value := by
  obtain ⟨name, kind⟩ := a
  cases kind with
  | str =>
    cases spelled
    rfl
  | int =>
    cases read : AttrSpec.int? value with
    | none => simp [AttrSpec.canonical, read] at spelled
    | some n =>
      simp only [AttrSpec.canonical, read, Except.ok.injEq] at spelled
      rw [AttrKind.tabular, read, ← spelled, Option.map_some, Option.getD_some]
  | word words =>
    cases found : words.find? fun word => Text.sameLetters word value with
    | none => simp [AttrSpec.canonical, found] at spelled
    | some word =>
      simp only [AttrSpec.canonical, found, Except.ok.injEq] at spelled
      rw [AttrKind.tabular, found, ← spelled, Option.getD_some]

namespace TagSpec

open AttrEntry

variable {spec : TagSpec} {attrs : List (String × String)} {located : List AttrEntry}

/-- An attribute is located where its name has the letters of a name of the row. -/
theorem Locates.place_eq_iff {attr : String × String} {entry : AttrEntry} {k : AttrSpec × Nat}
    (found : Locates spec AttrSpec.canonical attr entry) (member : spec ∈ table)
    (inside : k ∈ spec.attrs.zipIdx) :
    k.2 = entry.1.2 ↔ Text.sameLetters attr.1 k.1.name = true := by
  constructor
  · -- A place belongs to one attribute of the row.
    intro place
    have here : entry.1 ∈ spec.attrs.zipIdx := List.mem_of_find?_eq_some found.1
    obtain rfl := List.inj_on_of_nodup_map nodup_zipIdx_places inside here place
    have letters := List.find?_some found.1
    rw [Text.sameLetters_iff] at letters ⊢
    exact letters.symm
  · intro same
    have located := found.1
    simp only [Text.sameLetters_congr same] at located
    rw [Option.some.inj (located.symm.trans (find?_attr_name spec member k inside))]

/-- A place of the row is taken by the first attribute under its name, with its value as the table
spells it. -/
theorem lookup_located {k : AttrSpec × Nat} (member : spec ∈ table)
    (all : List.Forall₂ (Locates spec AttrSpec.canonical) attrs located)
    (inside : k ∈ spec.attrs.zipIdx) (name : String) : (placed located).lookup k.2 =
      (Tag.attr? ⟨name, attrs⟩ k.1.name).map k.1.kind.tabular := by
  rw [Tag.attr?]
  induction all with
  | nil => rfl
  | @cons attr entry attrs located found _ ih =>
    rw [placed, List.map_cons, List.lookup_cons, List.find?_cons]
    by_cases same : Text.sameLetters attr.1 k.1.name = true
    · have place := (found.place_eq_iff member inside).mpr same
      have here : entry.1 ∈ spec.attrs.zipIdx := List.mem_of_find?_eq_some found.1
      obtain rfl := List.inj_on_of_nodup_map nodup_zipIdx_places inside here place
      simp only [BEq.rfl, same, Option.map_some]
      rw [AttrSpec.canonical_eq_tabular found.2]
    · have place := mt (found.place_eq_iff member inside).mp same
      simp only [beq_eq_false_iff_ne.mpr place, same]
      exact ih

theorem lookup_reverse {values : List (Nat × String)} (distinct : (values.map Prod.fst).Nodup)
    (i : Nat) : values.reverse.lookup i = values.lookup i := by
  have distinct' : (values.reverse.map Prod.fst).Nodup := by
    rwa [List.map_reverse, List.nodup_reverse]
  ext value
  rw [lookup_eq_some_iff distinct', lookup_eq_some_iff distinct, List.mem_reverse]

/-- Attributes that have a canonical form are normalized to the attributes of the row that they
give, in its order. -/
theorem normalize_eq_tabular {out : List (String × String)} (member : spec ∈ table)
    (normal : spec.normalize attrs = .ok out) (name : String) :
    out = spec.attrs.filterMap fun a =>
      (Tag.attr? ⟨name, attrs⟩ a.name).map fun value => (a.name, a.kind.tabular value) := by
  obtain ⟨located, all, distinct, rfl⟩ := normalize_eq_ok.mp normal
  -- Both sides walk along the row, one of them with places.
  rw [named, TagSpec.entries, List.map_filterMap]
  conv_rhs => rw [← List.zipIdx_map_fst 0 spec.attrs, List.filterMap_map]
  refine List.filterMap_congr fun k inside => ?_
  rw [lookup_reverse distinct, lookup_located member all inside name, Option.map_map,
    Option.map_map]
  rfl

end TagSpec

/-- A tag that can be written is settled as the table spells it. -/
theorem Tag.settle_eq_tabular {e : Encoding} {tag : Tag} {paired : Bool} {bytes : List UInt8}
    (written : Markup.encodeHead e tag paired = .ok bytes) : tag.settle = tag.tabular := by
  obtain ⟨spec, attrs, found, _, normal, _⟩ := Markup.encodeHead_normalize written
  rw [Tag.settle_eq found normal, Tag.tabular, found]
  dsimp only
  rw [TagSpec.normalize_eq_tabular (TagSpec.mem_table_of_ofName? found) normal tag.name]

/-! ### Tokens -/

namespace Token

variable {e : Encoding}

mutual

/-- A token that can be written is settled to what is left of it in normal form. -/
theorem settle_eq_normal (depth : Nat) : ∀ (t : Token) {n : Nat} {bytes : List UInt8},
    Markup.encodeToken e depth t = .ok (n, bytes) → t.settle false = t.normal.toList
  | text run, _, _, _ => by
    rw [settle, normal]
    split
    · rfl
    · rfl
  | lineBreak, _, _, _ => rfl
  | pageBreak, _, _, _ => rfl
  | comment _, _, _, _ => rfl
  | mark tag, n, bytes, written => by
    simp only [Markup.encodeToken, bind_eq_ok, pure_eq_ok, Prod.mk.injEq] at written
    obtain ⟨head, written, _⟩ := written
    rw [settle, normal, Tag.settle_eq_tabular written, Option.toList_some]
  | span tag content, n, bytes, written => by
    simp only [Markup.encodeToken, bind_eq_ok, pure_eq_ok, refuse_eq_ok, Prod.exists,
      Prod.mk.injEq] at written
    obtain ⟨head, written, _, count, body, inner, _⟩ := written
    rw [settle, normal, Tag.settle_eq_tabular written, gather_settleAll (depth + 1) content inner,
      Option.toList_some]

/-- Tokens that can be written are settled to their normal form. -/
theorem gather_settleAll (depth : Nat) : ∀ (ts : List Token) {n : Nat} {bytes : List UInt8},
    Markup.encodeTokens e depth ts = .ok (n, bytes) → gather (settleAll false ts) = normalAll ts
  | [], _, _, _ => rfl
  | t :: ts, n, bytes, written => by
    obtain ⟨_, _, _, _, first, rest, _⟩ := Markup.encodeTokens_cons_eq_ok.mp written
    rw [settleAll, settle_eq_normal depth t first, normalAll, ← gather_settleAll depth ts rest]
    cases t.normal with
    | none => rfl
    | some t => rfl

end

end Token

/-! ### Characters -/

theorem AttrKind.written_tabular (kind : AttrKind) (value : String) :
    kind.written (kind.tabular value) = kind.written value := by
  cases kind with
  | int => rfl
  | str => rfl
  | word words => rfl

/-- A tag has no other characters when it is spelled as in the table. -/
theorem Tag.written_tabular (tag : Tag) : tag.tabular.written ⊆ tag.written := by
  intro c member
  rw [Tag.tabular] at member
  cases found : TagSpec.ofName? tag.name with
  | none => rwa [found] at member
  | some spec =>
    have listed := TagSpec.mem_table_of_ofName? found
    rw [found, Tag.written, TagSpec.ofName?_name spec listed, List.mem_flatMap] at member
    obtain ⟨attr, given, inside⟩ := member
    obtain ⟨a, among, made⟩ := List.mem_filterMap.mp given
    obtain ⟨value, first, rfl⟩ := Option.map_eq_some_iff.mp made
    dsimp only at inside
    rw [TagSpec.find?_attr spec listed a among] at inside
    dsimp only at inside
    rw [AttrKind.written_tabular] at inside
    -- The value is that of an attribute of the tag, under the same letters.
    obtain ⟨source, there, rfl⟩ := Option.map_eq_some_iff.mp first
    have letters := List.find?_some there
    rw [Tag.written, found, List.mem_flatMap]
    refine ⟨source, List.mem_of_find?_eq_some there, ?_⟩
    simp only [Text.sameLetters_congr letters]
    rw [TagSpec.find?_attr spec listed a among]
    exact inside

namespace Token

theorem writtenAll_join (t : Token) (ts : List Token) :
    writtenAll (t.join ts) = t.written ++ writtenAll ts := by
  rw [join.eq_def]
  split
  · simp [writtenAll, written]
  · rfl

mutual

theorem written_normal : ∀ (t u : Token), t.normal = some u → u.written ⊆ t.written
  | text run, u, left => by
    rw [normal] at left
    split at left
    · cases left
    · cases left
      exact List.Subset.refl _
  | lineBreak, u, left => by
    cases left
    exact List.Subset.refl _
  | pageBreak, u, left => by
    cases left
    exact List.Subset.refl _
  | comment _, u, left => by cases left
  | mark tag, u, left => by
    cases left
    exact tag.written_tabular
  | span tag content, u, left => by
    cases left
    exact List.append_subset.mpr
      ⟨List.subset_append_of_subset_left _ tag.written_tabular,
        List.subset_append_of_subset_right _ (writtenAll_normalAll content)⟩

/-- The normal form has no other characters. -/
theorem writtenAll_normalAll : ∀ ts : List Token, writtenAll (normalAll ts) ⊆ writtenAll ts
  | [] => List.Subset.refl _
  | t :: ts => by
    have rest := writtenAll_normalAll ts
    rw [normalAll, writtenAll]
    cases left : t.normal with
    | none => exact fun c member => List.mem_append_right _ (rest member)
    | some u =>
      dsimp only
      rw [writtenAll_join]
      exact List.append_subset.mpr
        ⟨List.subset_append_of_subset_left _ (written_normal t u left),
          List.subset_append_of_subset_right _ rest⟩

end

end Token

/-! ### Survival -/

/-- A text survives if each of its characters does. -/
theorem Encoding.survives_of_chars {e : Encoding} {s : String}
    (survive : ∀ c ∈ s.toList, e.Survives (String.singleton c)) : e.Survives s := by
  have writable : ∀ c ∈ s.toList, (e.encodeChar c).isSome = true := by
    intro c member
    obtain ⟨bytes, written, _⟩ := survive c member
    rw [Encoding.encode_singleton.mp written, Option.isSome_some]
  -- No character is read back as a look-alike, so the text is not either.
  have same : e.reread s = s := by
    refine Encoding.reread_eq_self_iff.mpr fun c member => ?_
    have alone := (survive c member).reread_eq
    exact Encoding.reread_eq_self_iff.mp alone c (by simp)
  obtain ⟨bytes, written⟩ := (e.hinges_write s).exists_ok_iff.mpr writable
  have encoded := Encoding.write_eq_ok.mp written
  have decoded := Encoding.decode_of_encode encoded
  rw [same] at decoded
  exact ⟨bytes, encoded, decoded⟩

theorem Tag.survives_of_written {e : Encoding} {tag : Tag}
    (survive : ∀ c ∈ tag.written, e.Survives (String.singleton c)) : tag.Survives e := by
  intro spec found attr given a among same kind
  have listed := TagSpec.mem_table_of_ofName? found
  refine Encoding.survives_of_chars fun c member => survive c ?_
  have letters : Text.sameLetters attr.1 a.name = true := by
    rw [Text.sameLetters_iff] at same ⊢
    exact same.symm
  rw [Tag.written, found, List.mem_flatMap]
  refine ⟨attr, given, ?_⟩
  simp only [Text.sameLetters_congr letters]
  rw [TagSpec.find?_attr spec listed a among]
  dsimp only
  rw [kind]
  exact member

namespace Token

variable {e : Encoding}

mutual

theorem survives_of_written : ∀ t : Token,
    (∀ c ∈ t.written, e.Survives (String.singleton c)) → t.Survives e
  | text _, survive => survive
  | lineBreak, _ => trivial
  | pageBreak, _ => trivial
  | comment _, _ => trivial
  | mark _, survive => Tag.survives_of_written survive
  | span _ content, survive =>
    have ⟨head, inner⟩ := List.forall_mem_append.mp survive
    ⟨Tag.survives_of_written head, allSurvive_of_written content inner⟩

/-- Tokens survive if each of their characters does. -/
theorem allSurvive_of_written : ∀ ts : List Token,
    (∀ c ∈ writtenAll ts, e.Survives (String.singleton c)) → AllSurvive e ts
  | [], _ => trivial
  | t :: ts, survive =>
    have ⟨first, rest⟩ := List.forall_mem_append.mp survive
    ⟨survives_of_written t first, allSurvive_of_written ts rest⟩

end

end Token

/-! ### Blocks -/

namespace TextBlock

variable {e : Encoding} {bytes : List UInt8} {block : TextBlock}

/-- The block that a byte string holds is the one that it stands for. -/
theorem ofBytes_eq_ok : TextBlock.ofBytes e bytes = .ok block ↔ Spelled e bytes block := by
  simp only [ofBytes, bind_eq_ok, pure_eq_ok, Prod.exists, reads_decode _ _ _ _]
  constructor
  · rintro ⟨_, c, ⟨body, spelled, passes⟩, _, finished, rfl⟩
    have all := passes.1
    rw [Cursor.finish_eq_ok.mp finished, List.append_nil] at all
    rwa [show bytes = body from all]
  · intro spelled
    exact ⟨block, _, ⟨bytes, spelled, Cursor.passes_rest _⟩, (), Cursor.finish_eq_ok.mpr rfl, rfl⟩

theorem settle_eq_normal (written : block.encode e = .ok bytes) :
    block.settle false = block.normal := by
  simp only [encode, refuse_eq_ok, bind_eq_ok, pure_eq_ok, Prod.exists] at written
  obtain ⟨_, _, _, written, _⟩ := written
  rw [settle, normal, Token.gather_settleAll 0 block.tokens written]

/-- The normal form of a block that can be written is canonical and has no comments. -/
theorem canonical_normal (written : block.encode e = .ok bytes) :
    Token.AllCanonical block.normal.tokens ∧ Token.anyComment block.normal.tokens = false := by
  rw [← settle_eq_normal written]
  simp only [encode, refuse_eq_ok, bind_eq_ok, pure_eq_ok, Prod.exists] at written
  obtain ⟨_, _, _, written, _⟩ := written
  exact ⟨Token.allCanonical_gather (Token.isCanonical_settleAll false 0 block.tokens written),
    Token.anyComment_gather (Token.hasComment_settleAll block.tokens)⟩

/-- The two ways of a block lead to one normal form: its bytes are read as it, and its script is
compiled to it. -/
theorem normal_both_ways (written : block.encode e = .ok bytes) (small : bytes.length < 2 ^ 32)
    (survive : ∀ c ∈ Token.writtenAll block.tokens, e.Survives (String.singleton c)) :
    TextBlock.ofBytes e bytes = .ok block.normal ∧
      Script.compile false (Script.print false block.tokens) = .ok block.normal.tokens := by
  constructor
  · -- The normal form is written with the same bytes, which stand for it as its texts survive.
    obtain ⟨canon, free⟩ := canonical_normal written
    have again := encode_settle written false
    rw [settle_eq_normal written] at again
    have survive' : Token.AllSurvive e block.normal.tokens :=
      Token.allSurvive_of_written _ fun c member =>
        survive c (Token.writtenAll_normalAll block.tokens member)
    exact ofBytes_eq_ok.mpr (spelled_of_encode again canon free survive' small)
  · rw [compile_settle written false, settle_eq_normal written]

/-- A block with all that a normal form settles: runs that meet once a comment and an empty run are
gone, also inside a span, and tags that are not spelled as in the table. -/
def scatteredBlock : TextBlock :=
  ⟨104, [.text "x", .comment "note", .text "", .text "y",
    .span ⟨"div", [("padleft", " +07 "), ("Align", "center")]⟩
      [.text "a", .comment "b", .text "c", .mark ⟨"event", [("name", "n")]⟩]]⟩

set_option maxRecDepth 10000 in
/-- The block comes back in normal form, from its bytes and from its script. -/
theorem normal_both_ways_scattered : ∃ bytes, scatteredBlock.encode .cp932 = .ok bytes ∧
    TextBlock.ofBytes .cp932 bytes = .ok ⟨104, [.text "xy",
      .span ⟨"DIV", [("ALIGN", "CENTER"), ("PADLEFT", "7")]⟩
        [.text "ac", .mark ⟨"EVENT", [("NAME", "n")]⟩]]⟩ ∧
    Script.compile false (Script.print false scatteredBlock.tokens) = .ok [.text "xy",
      .span ⟨"DIV", [("ALIGN", "CENTER"), ("PADLEFT", "7")]⟩
        [.text "ac", .mark ⟨"EVENT", [("NAME", "n")]⟩]] := by
  have written : scatteredBlock.encode .cp932 = .ok _ := rfl
  have survive : ∀ c ∈ Token.writtenAll scatteredBlock.tokens,
      Encoding.cp932.Survives (String.singleton c) := by
    have chars : Token.writtenAll scatteredBlock.tokens = ['x', 'y', 'a', 'c', 'n'] := by
      decide
    rw [chars]
    simp only [List.forall_mem_cons, List.not_mem_nil, false_imp_iff, implies_true, and_true]
    exact ⟨⟨_, rfl, rfl⟩, ⟨_, rfl, rfl⟩, ⟨_, rfl, rfl⟩, ⟨_, rfl, rfl⟩, ⟨_, rfl, rfl⟩⟩
  exact ⟨_, written, normal_both_ways written (by decide) survive⟩

end TextBlock

end NovelChart
