import NovelChart.Chart.Text
import NovelChart.Proofs.Chart
import NovelChart.Proofs.LookAlike
import NovelChart.Proofs.Recompile

/-!
# What was written is read back

A chart that can be written need not be canonical: edits leave comments, neighbouring runs of text,
loosely spelled tags, and characters that share their code with a look-alike. None of this reaches
the bytes. What is read back is the chart in settled form with every character replaced by the one
that its code spells, and it is written with the same bytes again.

## Main definitions

* `Value.reread`, `Token.reread`, `TextBlock.reread`, `Command.reread`, `Chart.reread`: what is read
  back, once it was written
* `Chart.Sound`: the version is supported, and only commands without a schema have raw bodies

## Main results

* `Token.allCanonical_settled`: settled tokens of a block that can be written are canonical
* `Chart.image_reread`: the bytes of a sound chart are the image of what `Chart.reread` says
* `TextBlock.Spelled.canonical`: a block that was read is canonical
-/

namespace NovelChart

variable {e : Encoding} {bytes : List UInt8}

/-! ### Settled tokens are canonical -/

/-- What passes as a canonical spelling is one. -/
theorem AttrSpec.isCanonical_of_canonical {a : AttrSpec} {key value value' : String}
    (spelled : a.canonical key value = .ok value') : a.kind.IsCanonical value' := by
  rw [canonical] at spelled
  split at spelled
  · next kind =>
    rw [kind]
    trivial
  · next kind =>
    rw [kind]
    split at spelled
    · next n _ =>
      cases spelled
      exact ⟨n, rfl⟩
    · cases spelled
  · next words kind =>
    rw [kind]
    split at spelled
    · next word found =>
      cases spelled
      exact List.mem_of_find?_eq_some found
    · cases spelled

/-- Entries in the order of the row, with canonical values, make a canonical tag. -/
theorem Tag.isCanonical_named {spec : TagSpec} {given : List AttrEntry}
    (member : spec ∈ TagSpec.table) (sublist : (given.map Prod.fst).Sublist spec.attrs.zipIdx)
    (values : ∀ entry ∈ given, entry.1.1.kind.IsCanonical entry.2) :
    Tag.IsCanonical ⟨spec.name, AttrEntry.named given⟩ spec := by
  refine ⟨member, rfl, AttrEntry.valued given, ?_, ?_, ?_⟩
  · have attrs := sublist.map Prod.fst
    rw [List.zipIdx_map_fst, List.map_map] at attrs
    rw [AttrEntry.valued, List.map_map]
    exact attrs
  · intro a listed
    obtain ⟨entry, chosen, rfl⟩ := List.mem_map.mp listed
    exact values entry chosen
  · rw [AttrEntry.valued, List.map_map]
    rfl

theorem TagSpec.isCanonical_of_locates {spec : TagSpec} {attrs : List (String × String)}
    {located : List AttrEntry}
    (all : List.Forall₂ (Locates spec AttrSpec.canonical) attrs located) :
    ∀ entry ∈ located, entry.1.1.kind.IsCanonical entry.2 := by
  induction all with
  | nil =>
    intro entry member
    cases member
  | cons found _ ih =>
    intro entry member
    rcases List.mem_cons.mp member with rfl | later
    · exact AttrSpec.isCanonical_of_canonical found.2
    · exact ih entry later

/-- Attributes in canonical form make a canonical tag. -/
theorem TagSpec.isCanonical_of_normalize {spec : TagSpec} {attrs out : List (String × String)}
    (member : spec ∈ table) (normal : spec.normalize attrs = .ok out) :
    Tag.IsCanonical ⟨spec.name, out⟩ spec := by
  obtain ⟨located, all, distinct, rfl⟩ := normalize_eq_ok.mp normal
  have inside := mem_zipIdx_of_locates all
  refine Tag.isCanonical_named member entries_sublist fun entry listed => ?_
  exact isCanonical_of_locates all entry ((mem_entries inside distinct).mp listed)

theorem Tag.isCanonical_settle {tag : Tag} {paired : Bool}
    (written : Markup.encodeHead e tag paired = .ok bytes) :
    ∃ spec, tag.settle.IsCanonical spec ∧ spec.paired = paired := by
  obtain ⟨spec, attrs, found, shape, normal, _⟩ := Markup.encodeHead_normalize written
  refine ⟨spec, ?_, shape⟩
  rw [Tag.settle_eq found normal]
  exact TagSpec.isCanonical_of_normalize (TagSpec.mem_table_of_ofName? found) normal

namespace Token

/-- A token stays apart from the ones behind it, or is a run of text that joins another. -/
theorem join_cases (t : Token) (ts : List Token) :
    ((t.isText = true → ∀ u ∈ ts.head?, u.isText = false) ∧ t.join ts = t :: ts) ∨
      ∃ run other rest, t = text run ∧ ts = text other :: rest ∧
        t.join ts = text (run ++ other) :: rest := by
  by_cases apart : t.isText = true → ∀ u ∈ ts.head?, u.isText = false
  · exact .inl ⟨apart, join_of_apart apart⟩
  · refine .inr ?_
    cases t with
    | text run =>
      cases ts with
      | nil => simp at apart
      | cons u rest =>
        cases u with
        | text other => exact ⟨run, other, rest, rfl, rfl, rfl⟩
        | _ => simp [isText] at apart
    | _ => simp [isText] at apart

/-- Gathering canonical tokens leaves no two runs side by side. -/
theorem allCanonical_gather {ts : List Token} (canon : ∀ t ∈ ts, t.IsCanonical) :
    AllCanonical (gather ts) := by
  induction ts with
  | nil => trivial
  | cons t ts ih =>
    have first := canon t List.mem_cons_self
    have rest := ih fun t member => canon t (List.mem_cons_of_mem _ member)
    change AllCanonical (t.join (gather ts))
    rcases join_cases t (gather ts) with ⟨apart, same⟩ | ⟨run, other, more, rfl, units, joined⟩
    · rw [same]
      exact ⟨first, apart, rest⟩
    · rw [joined]
      rw [units] at rest
      refine ⟨?_, rest.2.1, rest.2.2⟩
      intro empty
      exact first (String.append_eq_empty_iff.mp empty).1

/-- Gathering makes no comments. -/
theorem anyComment_gather {ts : List Token} (free : ∀ t ∈ ts, t.hasComment = false) :
    anyComment (gather ts) = false := by
  induction ts with
  | nil => rfl
  | cons t ts ih =>
    have first := free t List.mem_cons_self
    have rest := ih fun t member => free t (List.mem_cons_of_mem _ member)
    change anyComment (t.join (gather ts)) = false
    rcases join_cases t (gather ts) with ⟨_, same⟩ | ⟨run, other, more, rfl, units, joined⟩
    · rw [same, anyComment, first, rest]
      rfl
    · rw [joined]
      rw [units] at rest
      exact rest

mutual

/-- A token that can be written is settled into canonical ones. -/
theorem isCanonical_settle (keep : Bool) (depth : Nat) :
    ∀ (t : Token) {n : Nat} {bytes : List UInt8}, Markup.encodeToken e depth t = .ok (n, bytes) →
      ∀ u ∈ t.settle keep, u.IsCanonical
  | text run, _, _, _, u, member => by
    rw [settle] at member
    split at member
    · cases member
    · next filled =>
      obtain rfl := List.mem_singleton.mp member
      exact filled
  | lineBreak, _, _, _, u, member => by
    obtain rfl := List.mem_singleton.mp member
    trivial
  | pageBreak, _, _, _, u, member => by
    obtain rfl := List.mem_singleton.mp member
    trivial
  | comment body, _, _, _, u, member => by
    rw [settle] at member
    split at member
    · obtain rfl := List.mem_singleton.mp member
      intro c kept
      rw [Script.cleanComment, String.toList_ofList, List.mem_filter] at kept
      simpa using kept.2
    · cases member
  | mark tag, n, bytes, written, u, member => by
    obtain rfl := List.mem_singleton.mp member
    simp only [Markup.encodeToken, bind_eq_ok, pure_eq_ok, Prod.mk.injEq] at written
    obtain ⟨head, written, rfl, rfl⟩ := written
    exact Tag.isCanonical_settle written
  | span tag content, n, bytes, written, u, member => by
    obtain rfl := List.mem_singleton.mp member
    simp only [Markup.encodeToken, bind_eq_ok, pure_eq_ok, refuse_eq_ok, Prod.exists,
      Prod.mk.injEq] at written
    obtain ⟨head, written, _, count, body, inner, rfl, rfl⟩ := written
    exact ⟨Tag.isCanonical_settle written,
      allCanonical_gather (isCanonical_settleAll keep (depth + 1) content inner)⟩

/-- Tokens that can be written are settled into canonical ones. -/
theorem isCanonical_settleAll (keep : Bool) (depth : Nat) :
    ∀ (ts : List Token) {n : Nat} {bytes : List UInt8},
      Markup.encodeTokens e depth ts = .ok (n, bytes) → ∀ u ∈ settleAll keep ts, u.IsCanonical
  | [], _, _, _, u, member => by cases member
  | t :: ts, n, bytes, written, u, member => by
    obtain ⟨n, first, m, more, written₁, written₂, rfl, rfl⟩ :=
      Markup.encodeTokens_cons_eq_ok.mp written
    rcases List.mem_append.mp member with member | member
    · exact isCanonical_settle keep depth t written₁ u member
    · exact isCanonical_settleAll keep depth ts written₂ u member

end

mutual

/-- Settling drops comments unless they are kept. -/
theorem hasComment_settle : ∀ t : Token, ∀ u ∈ t.settle false, u.hasComment = false
  | text run, u, member => by
    rw [settle] at member
    split at member
    · cases member
    · obtain rfl := List.mem_singleton.mp member
      rfl
  | lineBreak, u, member => by
    obtain rfl := List.mem_singleton.mp member
    rfl
  | pageBreak, u, member => by
    obtain rfl := List.mem_singleton.mp member
    rfl
  | comment body, u, member => by cases member
  | mark tag, u, member => by
    obtain rfl := List.mem_singleton.mp member
    rfl
  | span tag content, u, member => by
    obtain rfl := List.mem_singleton.mp member
    exact anyComment_gather (hasComment_settleAll content)

theorem hasComment_settleAll : ∀ ts : List Token, ∀ u ∈ settleAll false ts, u.hasComment = false
  | [], u, member => by cases member
  | t :: ts, u, member => by
    rcases List.mem_append.mp member with member | member
    · exact hasComment_settle t u member
    · exact hasComment_settleAll ts u member

end

end Token

/-! ### Values -/

/-- Plain characters have no look-alikes. -/
theorem Encoding.reread_of_ascii {s : String} (plain : ∀ c ∈ s.toList, c.toNat < 128) :
    e.reread s = s := by
  cases e with
  | utf8 => exact reread_utf8 s
  | cp932 =>
    have same : s.toList.map (rereadChar cp932) = s.toList := by
      refine (List.map_congr_left fun c member => ?_).trans (List.map_id _)
      have low := plain c member
      exact rereadChar_of_ne (by omega) (by omega) (by omega)
    rw [reread, same, String.ofList_toList]

namespace Value

mutual

/-- What a value is read back as, once it was written. -/
def reread (e : Encoding) : Value → Value
  | str s => str (e.reread s)
  | array items => array (rereadAll e items)
  | v => v

/-- What values are read back as. -/
def rereadAll (e : Encoding) : List Value → List Value
  | [] => []
  | v :: vs => v.reread e :: rereadAll e vs

end

theorem length_rereadAll (e : Encoding) (vs : List Value) :
    (rereadAll e vs).length = vs.length := by
  induction vs with
  | nil => rfl
  | cons v vs ih => rw [rereadAll, List.length_cons, List.length_cons, ih]

theorem encodeItems_reread {elem : Kind}
    (one : ∀ {v field bytes}, encode e v elem field = .ok bytes →
      (v.reread e).encode e elem field = .ok bytes ∧ (v.reread e).Survives e)
    {items : List Value} {field : String} {i : Nat}
    (written : encodeItems e items elem field i = .ok bytes) :
    encodeItems e (rereadAll e items) elem field i = .ok bytes ∧
      ∀ v ∈ rereadAll e items, v.Survives e := by
  induction items generalizing bytes i with
  | nil => exact ⟨written, by simp [rereadAll]⟩
  | cons v items ih =>
    simp only [encodeItems, bind_eq_ok, pure_eq_ok] at written
    obtain ⟨first, written₁, more, written₂, rfl⟩ := written
    obtain ⟨again₁, survives⟩ := one written₁
    obtain ⟨again₂, survive⟩ := ih written₂
    refine ⟨?_, List.forall_mem_cons.mpr ⟨survives, survive⟩⟩
    simp only [rereadAll, encodeItems, bind_eq_ok, pure_eq_ok]
    exact ⟨first, again₁, more, again₂, rfl⟩

/-- What a value is read back as is written alike and survives. -/
theorem encode_reread {v : Value} {kind : Kind} {field : String}
    (written : v.encode e kind field = .ok bytes) :
    (v.reread e).encode e kind field = .ok bytes ∧ (v.reread e).Survives e := by
  induction kind generalizing bytes v field with
  | int =>
    cases v <;> simp only [encode, reduceCtorEq] at written
    exact ⟨written, .int _⟩
  | real =>
    cases v <;> simp only [encode, reduceCtorEq] at written
    exact ⟨written, .real _⟩
  | flag =>
    cases v <;> simp only [encode, reduceCtorEq] at written
    exact ⟨written, .flag _⟩
  | str =>
    cases v <;> simp only [encode, reduceCtorEq, bind_eq_ok, pure_eq_ok] at written
    obtain ⟨body, written, rfl⟩ := written
    have encoded := Encoding.write_eq_ok.mp written
    refine ⟨?_, .str (Encoding.survives_reread encoded)⟩
    simp only [reread, encode, bind_eq_ok, pure_eq_ok, Encoding.write_eq_ok]
    exact ⟨body, Encoding.encode_reread encoded, rfl⟩
  | array elem ih =>
    cases v <;> simp only [encode, reduceCtorEq, bind_eq_ok, pure_eq_ok] at written
    obtain ⟨body, written, rfl⟩ := written
    obtain ⟨again, survive⟩ := encodeItems_reread ih written
    refine ⟨?_, .array survive⟩
    simp only [reread, encode, bind_eq_ok, pure_eq_ok, length_rereadAll]
    exact ⟨body, again, rfl⟩

end Value

/-! ### Tags -/

/-- What a tag is read back as, once it was written. -/
def Tag.reread (e : Encoding) (tag : Tag) : Tag :=
  ⟨tag.name, tag.attrs.map fun attr => (attr.1, e.reread attr.2)⟩

namespace AttrSpec

variable {a : AttrSpec} {value : String}

theorem ascii_int32 (n : Int32) : ∀ c ∈ (Text.int32 n).toList, c.toNat < 128 := by
  have digits : ∀ m : Nat, ∀ c ∈ Nat.toDigits 10 m, c.toNat < 128 := by
    intro m c member
    have digit := Nat.isDigit_of_mem_toDigits (by decide) (by decide) member
    have bounds := Text.toNat_of_isDigit digit
    omega
  rw [Text.toList_int32]
  split
  · exact digits _
  · exact List.forall_mem_cons.mpr ⟨by decide, digits _⟩

theorem ascii_words : ∀ spec ∈ TagSpec.table, ∀ a ∈ spec.attrs, ∀ word ∈ a.kind.words,
    ∀ c ∈ word.toList, c.toNat < 128 := by
  have all : ∀ spec ∈ TagSpec.table, ∀ a ∈ spec.attrs, ∀ word ∈ a.kind.words,
      word.toList.all (fun c => c.toNat < 128) = true := by
    decide
  intro spec member a attr word among c inside
  simpa using List.all_eq_true.mp (all spec member a attr word among) c inside

/-- What a canonical attribute is read back as is canonical, written alike, and survives. -/
theorem encodeAttr_reread {spec : TagSpec} (member : spec ∈ TagSpec.table) (attr : a ∈ spec.attrs)
    (canon : a.kind.IsCanonical value) {tag : String}
    (written : Markup.encodeAttr e tag a value = .ok bytes) (tag' : String) :
    a.kind.IsCanonical (e.reread value) ∧
      Markup.encodeAttr e tag' a (e.reread value) = .ok bytes ∧
      (a.kind = .str → e.Survives (e.reread value)) := by
  have words := ascii_words spec member a attr
  obtain ⟨name, kind⟩ := a
  cases kind with
  | int =>
    obtain ⟨n, rfl⟩ := canon
    rw [Encoding.reread_of_ascii (ascii_int32 n)]
    simp only [Markup.encodeAttr, int?_int32] at written ⊢
    exact ⟨⟨n, rfl⟩, written, AttrKind.noConfusion⟩
  | str =>
    simp only [Markup.encodeAttr, bind_eq_ok, pure_eq_ok] at written ⊢
    obtain ⟨body, written, rfl⟩ := written
    have encoded := Encoding.write_eq_ok.mp written
    exact ⟨trivial, ⟨body, Encoding.write_eq_ok.mpr (Encoding.encode_reread encoded), rfl⟩,
      fun _ => Encoding.survives_reread encoded⟩
  | word choices =>
    rw [Encoding.reread_of_ascii (words value canon)]
    simp only [Markup.encodeAttr] at written ⊢
    split at written
    · exact ⟨canon, written, AttrKind.noConfusion⟩
    · cases written

end AttrSpec

namespace AttrEntry

/-- What an entry is read back as, once it was written. -/
def reread (e : Encoding) (entry : AttrEntry) : AttrEntry :=
  (entry.1, e.reread entry.2)

theorem named_reread (e : Encoding) (given : List AttrEntry) :
    named (given.map (reread e)) = (named given).map fun attr => (attr.1, e.reread attr.2) := by
  simp [named, reread]

theorem keys_reread (e : Encoding) (given : List AttrEntry) :
    (given.map (reread e)).map Prod.fst = given.map Prod.fst := by
  simp [reread]

/-- What canonical entries are read back as is canonical, written alike, and survives. -/
theorem encodeAttrs_reread {spec : TagSpec} (member : spec ∈ TagSpec.table)
    {given : List AttrEntry} (inside : ∀ entry ∈ given, entry.1.1 ∈ spec.attrs)
    (canon : ∀ entry ∈ given, entry.1.1.kind.IsCanonical entry.2) {tag : String}
    (written : Markup.encodeAttrs e tag (valued given) = .ok bytes) (tag' : String) :
    (∀ entry ∈ given.map (reread e), entry.1.1.kind.IsCanonical entry.2) ∧
      Markup.encodeAttrs e tag' (valued (given.map (reread e))) = .ok bytes ∧
      ∀ entry ∈ given.map (reread e), entry.1.1.kind = .str → e.Survives entry.2 := by
  induction given generalizing bytes with
  | nil => exact ⟨by simp, written, by simp⟩
  | cons entry given ih =>
    simp only [valued, List.map_cons, Markup.encodeAttrs, bind_eq_ok, pure_eq_ok] at written
    obtain ⟨first, written₁, more, written₂, rfl⟩ := written
    obtain ⟨inside₁, inside₂⟩ := List.forall_mem_cons.mp inside
    obtain ⟨canon₁, canon₂⟩ := List.forall_mem_cons.mp canon
    obtain ⟨canon₁, again₁, survives⟩ :=
      AttrSpec.encodeAttr_reread member inside₁ canon₁ written₁ tag'
    obtain ⟨canon₂, again₂, survive⟩ := ih inside₂ canon₂ written₂
    refine ⟨List.forall_mem_cons.mpr ⟨canon₁, canon₂⟩, ?_,
      List.forall_mem_cons.mpr ⟨survives, survive⟩⟩
    simp only [valued, List.map_cons, Markup.encodeAttrs, bind_eq_ok, pure_eq_ok]
    exact ⟨first, again₁, more, again₂, rfl⟩

end AttrEntry

namespace Tag

/-- A name leads to one attribute of a row only. -/
theorem attr_of_sameLetters : ∀ spec ∈ TagSpec.table, ∀ a ∈ spec.attrs, ∀ b ∈ spec.attrs,
    Text.sameLetters a.name b.name = true → a = b := by
  decide

/-- What placed entries are read back as is canonical, written alike, and survives. -/
theorem encodePlaced_reread {spec : TagSpec} {given : List AttrEntry}
    (member : spec ∈ TagSpec.table) (sublist : (given.map Prod.fst).Sublist spec.attrs.zipIdx)
    (values : ∀ entry ∈ given, entry.1.1.kind.IsCanonical entry.2) {tag : Tag}
    (written : Markup.encodePlaced e tag spec (AttrEntry.placed given).reverse = .ok bytes)
    (tag' : Tag) :
    (∀ entry ∈ given.map (AttrEntry.reread e), entry.1.1.kind.IsCanonical entry.2) ∧
      Markup.encodePlaced e tag' spec (AttrEntry.placed (given.map (AttrEntry.reread e))).reverse =
        .ok bytes ∧
      ∀ entry ∈ given.map (AttrEntry.reread e), entry.1.1.kind = .str → e.Survives entry.2 := by
  have inside : ∀ entry ∈ given, entry.1 ∈ spec.attrs.zipIdx := fun entry listed =>
    sublist.subset (List.mem_map_of_mem listed)
  rw [Markup.encodePlaced] at written
  split at written
  · next kind code =>
    obtain rfl := Markup.eq_nil_of_brk member code inside
    refine ⟨by simp, ?_, by simp⟩
    rw [Markup.encodePlaced, code]
    exact written
  · next code eq =>
    simp only [TagSpec.arrange_eq_valued, TagSpec.entries_placed sublist, bind_eq_ok, pure_eq_ok]
      at written
    obtain ⟨body, written, rfl⟩ := written
    obtain ⟨canon, again, survive⟩ := AttrEntry.encodeAttrs_reread member
      (fun entry listed => List.fst_mem_of_mem_zipIdx (inside entry listed)) values written
      tag'.name
    refine ⟨canon, ?_, survive⟩
    have sublist' := sublist
    rw [← AttrEntry.keys_reread e given] at sublist'
    -- The places are the same, so the mask is.
    have mask : Markup.attrMask (AttrEntry.placed (given.map (AttrEntry.reread e))).reverse =
        Markup.attrMask (AttrEntry.placed given).reverse := by
      simp only [Markup.attrMask, AttrEntry.placed, List.map_map, ← List.map_reverse,
        List.foldr_map]
      rfl
    simp only [Markup.encodePlaced, eq, TagSpec.arrange_eq_valued, TagSpec.entries_placed sublist',
      mask, bind_eq_ok, pure_eq_ok]
    exact ⟨body, again, rfl⟩

/-- What a canonical tag is read back as is canonical, written alike, and survives. -/
theorem encodeHead_reread {tag : Tag} {spec : TagSpec} (canon : tag.IsCanonical spec)
    (written : Markup.encodeHead e tag spec.paired = .ok bytes) :
    (tag.reread e).IsCanonical spec ∧
      Markup.encodeHead e (tag.reread e) spec.paired = .ok bytes ∧ (tag.reread e).Survives e := by
  have member := canon.1
  obtain ⟨given, sublist, values, rfl⟩ := canon.entries
  have tag_eq : Tag.reread e ⟨spec.name, AttrEntry.named given⟩ =
      ⟨spec.name, AttrEntry.named (given.map (AttrEntry.reread e))⟩ := by
    rw [Tag.reread, AttrEntry.named_reread]
  have sublist' := sublist
  rw [← AttrEntry.keys_reread e given] at sublist'
  rw [Markup.encodeHead_named member sublist] at written
  obtain ⟨canon, again, survive⟩ := encodePlaced_reread member sublist values written
    ⟨spec.name, AttrEntry.named (given.map (AttrEntry.reread e))⟩
  rw [tag_eq, Markup.encodeHead_named member sublist']
  refine ⟨isCanonical_named member sublist' canon, again, ?_⟩
  intro spec' found attr listed a inside same kind
  obtain rfl := Option.some.inj ((TagSpec.ofName?_name spec member).symm.trans found)
  obtain ⟨entry, chosen, rfl⟩ := List.mem_map.mp listed
  have inside' := List.fst_mem_of_mem_zipIdx (sublist'.subset (List.mem_map_of_mem chosen))
  obtain rfl := attr_of_sameLetters spec member a inside _ inside' same
  exact survive entry chosen kind

end Tag

/-! ### Tokens and text blocks -/

namespace Token

mutual

/-- What a token is read back as, once it was written. -/
def reread (e : Encoding) : Token → Token
  | text run => text (e.reread run)
  | mark tag => mark (tag.reread e)
  | span tag content => span (tag.reread e) (rereadAll e content)
  | t => t

/-- What tokens are read back as. -/
def rereadAll (e : Encoding) : List Token → List Token
  | [] => []
  | t :: ts => t.reread e :: rereadAll e ts

end

theorem isText_reread (e : Encoding) (t : Token) : (t.reread e).isText = t.isText := by
  cases t <;> rfl

theorem head?_rereadAll (e : Encoding) (ts : List Token) :
    (rereadAll e ts).head? = ts.head?.map (reread e) := by
  cases ts <;> rfl

theorem encodeRun_reread {cs : List Char} (written : Markup.encodeRun e cs = .ok bytes) :
    Markup.encodeRun e (cs.map e.rereadChar) = .ok bytes ∧
      ∀ c ∈ cs.map e.rereadChar, e.Survives (String.singleton c) := by
  induction cs generalizing bytes with
  | nil => exact ⟨written, by simp⟩
  | cons c cs ih =>
    simp only [Markup.encodeRun, bind_eq_ok, pure_eq_ok] at written
    obtain ⟨first, written₁, more, written₂, rfl⟩ := written
    have single : e.reread (String.singleton c) = String.singleton (e.rereadChar c) := by
      rw [Encoding.reread, String.toList_singleton, List.map_singleton, String.singleton_eq_ofList]
    have encoded := Encoding.write_eq_ok.mp written₁
    have again := Encoding.encode_reread encoded
    have survives := Encoding.survives_reread encoded
    rw [single] at again survives
    obtain ⟨again₂, survive⟩ := ih written₂
    refine ⟨?_, List.forall_mem_cons.mpr ⟨survives, survive⟩⟩
    simp only [List.map_cons, Markup.encodeRun, bind_eq_ok, pure_eq_ok, Encoding.write_eq_ok]
    exact ⟨first, again, more, again₂, rfl⟩

mutual

/-- What a canonical token is read back as is canonical, written alike, and survives. -/
theorem encodeToken_reread (depth : Nat) :
    ∀ (t : Token) {n : Nat} {bytes : List UInt8}, t.IsCanonical →
      Markup.encodeToken e depth t = .ok (n, bytes) →
      (t.reread e).IsCanonical ∧ (t.reread e).hasComment = t.hasComment ∧
        Markup.encodeToken e depth (t.reread e) = .ok (n, bytes) ∧ (t.reread e).Survives e
  | text run, n, bytes, filled, written => by
    simp only [Markup.encodeToken, bind_eq_ok, pure_eq_ok, Prod.mk.injEq] at written
    obtain ⟨_, written, rfl, rfl⟩ := written
    obtain ⟨again, survive⟩ := encodeRun_reread written
    refine ⟨?_, rfl, ?_, ?_⟩
    · intro empty
      have none : run.toList.map e.rereadChar = [] := by
        rw [← String.toList_ofList (l := run.toList.map e.rereadChar)]
        exact String.toList_eq_nil_iff.mpr empty
      exact filled (String.toList_eq_nil_iff.mp (List.map_eq_nil_iff.mp none))
    · simp only [reread, Markup.encodeToken, bind_eq_ok, pure_eq_ok, Prod.mk.injEq,
        Encoding.reread, String.toList_ofList, List.length_map]
      exact ⟨_, again, trivial, rfl⟩
    · intro c member
      rw [Encoding.reread, String.toList_ofList] at member
      exact survive c member
  | lineBreak, _, _, canon, written => ⟨canon, rfl, written, trivial⟩
  | pageBreak, _, _, canon, written => ⟨canon, rfl, written, trivial⟩
  | comment _, _, _, canon, written => ⟨canon, rfl, written, trivial⟩
  | mark tag, n, bytes, canon, written => by
    obtain ⟨spec, canon, single⟩ := canon
    simp only [Markup.encodeToken, bind_eq_ok, pure_eq_ok, Prod.mk.injEq] at written
    obtain ⟨head, written, rfl, rfl⟩ := written
    rw [← single] at written
    obtain ⟨canon, again, survives⟩ := Tag.encodeHead_reread canon written
    rw [single] at again
    refine ⟨⟨spec, canon, single⟩, rfl, ?_, survives⟩
    simp only [reread, Markup.encodeToken, bind_eq_ok, pure_eq_ok, Prod.mk.injEq]
    exact ⟨head, again, trivial, rfl⟩
  | span tag content, n, bytes, canon, written => by
    obtain ⟨⟨spec, canon, paired⟩, canons⟩ := canon
    simp only [Markup.encodeToken, bind_eq_ok, pure_eq_ok, refuse_eq_ok, Prod.exists,
      Prod.mk.injEq] at written
    obtain ⟨head, written, shallow, count, body, inner, rfl, rfl⟩ := written
    rw [← paired] at written
    obtain ⟨canon, again, survives⟩ := Tag.encodeHead_reread canon written
    obtain ⟨canons, free, again', survive⟩ := encodeTokens_reread (depth + 1) content canons inner
    rw [paired] at again
    refine ⟨⟨⟨spec, canon, paired⟩, canons⟩, free, ?_, survives, survive⟩
    simp only [reread, Markup.encodeToken, bind_eq_ok, pure_eq_ok, refuse_eq_ok, Prod.exists,
      Prod.mk.injEq]
    exact ⟨head, again, shallow, count, body, again', trivial, rfl⟩

/-- What canonical tokens are read back as is canonical, written alike, and survives. -/
theorem encodeTokens_reread (depth : Nat) :
    ∀ (ts : List Token) {n : Nat} {bytes : List UInt8}, AllCanonical ts →
      Markup.encodeTokens e depth ts = .ok (n, bytes) →
      AllCanonical (rereadAll e ts) ∧ anyComment (rereadAll e ts) = anyComment ts ∧
        Markup.encodeTokens e depth (rereadAll e ts) = .ok (n, bytes) ∧
        AllSurvive e (rereadAll e ts)
  | [], _, _, _, written => ⟨trivial, rfl, written, trivial⟩
  | t :: ts, n, bytes, canon, written => by
    obtain ⟨canon₁, apart, canon₂⟩ := canon
    obtain ⟨n, first, m, more, written₁, written₂, rfl, rfl⟩ :=
      Markup.encodeTokens_cons_eq_ok.mp written
    obtain ⟨canon₁, free₁, again₁, survives⟩ := encodeToken_reread depth t canon₁ written₁
    obtain ⟨canon₂, free₂, again₂, survive⟩ := encodeTokens_reread depth ts canon₂ written₂
    refine ⟨⟨canon₁, ?_, canon₂⟩, ?_, ?_, survives, survive⟩
    · intro isText u member
      rw [isText_reread] at isText
      rw [head?_rereadAll, Option.mem_def, Option.map_eq_some_iff] at member
      obtain ⟨u, member, rfl⟩ := member
      rw [isText_reread]
      exact apart isText u member
    · rw [rereadAll, anyComment, anyComment, free₁, free₂]
    · rw [rereadAll, Markup.encodeTokens_cons_eq_ok]
      exact ⟨n, first, m, more, again₁, again₂, rfl, rfl⟩

end

end Token

namespace TextBlock

variable {block : TextBlock}

/-- What a block is read back as, once it was written. -/
def reread (e : Encoding) (block : TextBlock) : TextBlock :=
  { block with tokens := Token.rereadAll e (block.settle false).tokens }

/-- What a block is read back as is canonical, written alike, and survives. -/
theorem encode_reread (written : block.encode e = .ok bytes) :
    Token.AllCanonical (block.reread e).tokens ∧
      Token.anyComment (block.reread e).tokens = false ∧
      (block.reread e).encode e = .ok bytes ∧ Token.AllSurvive e (block.reread e).tokens := by
  simp only [encode, refuse_eq_ok, bind_eq_ok, pure_eq_ok, Prod.exists] at written ⊢
  obtain ⟨low, count, body, written, rfl⟩ := written
  have canon := Token.allCanonical_gather
    (Token.isCanonical_settleAll false 0 block.tokens written)
  have free := Token.anyComment_gather (Token.hasComment_settleAll block.tokens)
  have settled := Markup.encodeTokens_settleAll false 0 block.tokens written
  rw [← Markup.encodeTokens_gather] at settled
  obtain ⟨canon, free', again, survive⟩ := Token.encodeTokens_reread 0 _ canon settled
  exact ⟨canon, free'.trans free, ⟨low, count, body, again, rfl⟩, survive⟩

/-- The bytes of a block stand for what it is read back as. -/
theorem spelled_reread (written : block.encode e = .ok bytes) (small : bytes.length < 2 ^ 32) :
    Spelled e bytes (block.reread e) := by
  obtain ⟨canon, free, again, survive⟩ := encode_reread written
  exact spelled_of_encode again canon free survive small

end TextBlock

/-- A block that was read is canonical, without comments, and survives. -/
theorem TextBlock.Spelled.canonical {block : TextBlock} (spelled : Spelled e bytes block)
    (small : bytes.length < 2 ^ 32) : Token.AllCanonical block.tokens ∧
      Token.anyComment block.tokens = false ∧ Token.AllSurvive e block.tokens := by
  have written := spelled.encode_eq
  -- The bytes stand for one block only, so the block is what it is read back as.
  have same : block.reread e = block :=
    (reads_decode ⟨e, true⟩).unique (spelled_reread written small) spelled
  obtain ⟨canon, free, _, survive⟩ := encode_reread written
  rw [same] at canon free survive
  exact ⟨canon, free, survive⟩

/-! ### Commands -/

namespace Parameters

/-- What parameters are read back as, once they were written. -/
def reread (e : Encoding) (p : Parameters) : Parameters where
  fixed := Value.rereadAll e p.fixed
  tail := p.tail.map (Value.rereadAll e)
  text := p.text.map (TextBlock.reread e)

theorem encodeAll_reread {label : Field → String} {fields : List Field} {values : List Value}
    (length : values.length = fields.length)
    (written : Field.encodeAll e label fields values = .ok bytes) :
    Field.encodeAll e label fields (Value.rereadAll e values) = .ok bytes ∧
      ∀ v ∈ Value.rereadAll e values, v.Survives e := by
  induction fields generalizing values bytes with
  | nil =>
    obtain rfl := List.length_eq_zero_iff.mp length
    exact ⟨written, by simp [Value.rereadAll]⟩
  | cons f fields ih =>
    cases values with
    | nil => cases length
    | cons v values =>
      simp only [Field.encodeAll, bind_eq_ok, pure_eq_ok] at written
      obtain ⟨first, written₁, more, written₂, rfl⟩ := written
      obtain ⟨again₁, survives⟩ := Value.encode_reread written₁
      obtain ⟨again₂, survive⟩ := ih (Nat.succ.inj length) written₂
      refine ⟨?_, List.forall_mem_cons.mpr ⟨survives, survive⟩⟩
      simp only [Value.rereadAll, Field.encodeAll, bind_eq_ok, pure_eq_ok]
      exact ⟨first, again₁, more, again₂, rfl⟩

variable {opcode : Opcode} {s : Schema} {p : Parameters}

theorem encodeGroups_reread {fields : List Field} {group : Nat} {groups : List (List Value)}
    (written : encodeGroups e opcode fields group groups = .ok bytes) :
    encodeGroups e opcode fields group (groups.map (Value.rereadAll e)) = .ok bytes ∧
      ∀ values ∈ groups.map (Value.rereadAll e), ∀ v ∈ values, v.Survives e := by
  induction groups generalizing group bytes with
  | nil => exact ⟨written, by simp⟩
  | cons values groups ih =>
    simp only [encodeGroups, refuse_eq_ok, bind_eq_ok, pure_eq_ok, ne_eq, Decidable.not_not]
      at written
    obtain ⟨length, first, written₁, more, written₂, rfl⟩ := written
    obtain ⟨again₁, survives⟩ := encodeAll_reread length written₁
    obtain ⟨again₂, survive⟩ := ih written₂
    refine ⟨?_, List.forall_mem_cons.mpr ⟨survives, survive⟩⟩
    simp only [List.map_cons, encodeGroups, refuse_eq_ok, bind_eq_ok, pure_eq_ok, ne_eq,
      Decidable.not_not, Value.length_rereadAll]
    exact ⟨length, first, again₁, more, again₂, rfl⟩

/-- What parameters are read back as is canonical, written alike, and survives. -/
theorem encode_reread (written : p.encode e opcode s = .ok bytes) :
    (p.reread e).encode e opcode s = .ok bytes ∧ (p.reread e).IsCanonical ∧
      (p.reread e).Survives e := by
  simp only [encode, encodeValues, refuse_eq_ok, bind_eq_ok, pure_eq_ok, ne_eq, Decidable.not_not]
    at written ⊢
  obtain ⟨_, ⟨length, fixed, written₁, tail, written₂, rfl⟩, text, written₃, rfl⟩ := written
  obtain ⟨again₁, fixedSurvives⟩ := encodeAll_reread length written₁
  have again₂ : encodeTail e opcode s (p.reread e).tail = .ok tail ∧
      ∀ values ∈ (p.reread e).tail, ∀ v ∈ values, v.Survives e := by
    rw [encodeTail] at written₂ ⊢
    split at written₂
    · simp only [bind_eq_ok, pure_eq_ok] at written₂ ⊢
      obtain ⟨body, written₂, rfl⟩ := written₂
      obtain ⟨again, survive⟩ := encodeGroups_reread written₂
      refine ⟨⟨body, again, ?_⟩, survive⟩
      rw [reread, List.length_map]
    · split at written₂
      · next empty =>
        cases written₂
        simp [reread, List.isEmpty_iff.mp empty]
      · cases written₂
  obtain ⟨again₂, tailSurvives⟩ := again₂
  have again₃ : (p.reread e).encodeText e opcode s = .ok text ∧
      ∀ block, (p.reread e).text = some block → Token.AllCanonical block.tokens ∧
        Token.anyComment block.tokens = false ∧ Token.AllSurvive e block.tokens := by
    rw [encodeText] at written₃
    split at written₃
    · next block found carries =>
      obtain ⟨canon, free, again, survive⟩ := TextBlock.encode_reread written₃
      have found' : (p.reread e).text = some (block.reread e) := by
        rw [reread, found, Option.map_some]
      rw [encodeText, found', carries]
      refine ⟨again, fun other same => ?_⟩
      cases same
      exact ⟨canon, free, survive⟩
    · cases written₃
    · cases written₃
    · next found carries =>
      have found' : (p.reread e).text = none := by
        rw [reread, found, Option.map_none]
      rw [encodeText, found', carries]
      refine ⟨written₃, fun other same => ?_⟩
      cases same
  obtain ⟨again₃, blocks⟩ := again₃
  refine ⟨⟨_, ⟨?_, fixed, again₁, tail, again₂, rfl⟩, text, again₃, rfl⟩, ?_, ?_⟩
  · rw [reread, Value.length_rereadAll, length]
  · intro block found
    exact ⟨(blocks block found).1, (blocks block found).2.1⟩
  · exact ⟨fixedSurvives, tailSurvives, fun block found => (blocks block found).2.2⟩

end Parameters

namespace Command

/-- What a command is read back as, once it was written. -/
def reread (e : Encoding) : Command → Command :=
  mapParams (Parameters.reread e)

/-- Only a command without a schema has a raw body. -/
def Sound (c : Command) : Prop :=
  c.isRaw = true → c.opcode.schema? = none

/-- What a sound command is read back as is canonical, written alike, and survives. -/
theorem encode_reread {c : Command} (sound : c.Sound) (written : c.encode e = .ok bytes) :
    (c.reread e).encode e = .ok bytes ∧ (c.reread e).IsCanonical ∧ (c.reread e).Survives e := by
  obtain ⟨opcode, indent, flags, body⟩ := c
  cases body with
  | raw body =>
    refine ⟨written, sound rfl, fun _ same => ?_⟩
    cases same
  | typed params =>
    simp only [encode, encodeBody, bind_eq_ok, pure_eq_ok] at written
    obtain ⟨body, written, rfl⟩ := written
    split at written
    · next absurd => cases absurd
    · next schema same found =>
      cases same
      obtain ⟨again, canon, survives⟩ := Parameters.encode_reread written
      refine ⟨?_, canon, ?_⟩
      · simp only [reread, mapParams, encode, encodeBody, found, again, bind_eq_ok, pure_eq_ok]
        exact ⟨body, rfl, rfl⟩
      · intro other same
        cases same
        exact survives
    · cases written

theorem encodeAll_reread {commands : List Command} (sound : ∀ c ∈ commands, c.Sound)
    (written : encodeAll e commands = .ok bytes) :
    encodeAll e (commands.map (reread e)) = .ok bytes ∧
      ∀ c ∈ commands.map (reread e), c.IsCanonical ∧ c.Survives e := by
  induction commands generalizing bytes with
  | nil => exact ⟨written, by simp⟩
  | cons c commands ih =>
    simp only [encodeAll, bind_eq_ok, pure_eq_ok] at written
    obtain ⟨first, written₁, more, written₂, rfl⟩ := written
    obtain ⟨sound₁, sound₂⟩ := List.forall_mem_cons.mp sound
    obtain ⟨again₁, canonSurvives⟩ := encode_reread sound₁ written₁
    obtain ⟨again₂, rest⟩ := ih sound₂ written₂
    refine ⟨?_, List.forall_mem_cons.mpr ⟨canonSurvives, rest⟩⟩
    simp only [List.map_cons, encodeAll, bind_eq_ok, pure_eq_ok]
    exact ⟨first, again₁, more, again₂, rfl⟩

end Command

/-! ### Charts -/

/-- What a label is read back as, once it was written. -/
def Label.reread (e : Encoding) (l : Label) : Label :=
  { l with name := e.reread l.name }

theorem Label.encodeAll_reread {commands : Nat} {labels : List Label}
    (written : encodeAll e commands labels = .ok bytes) :
    encodeAll e commands (labels.map (reread e)) = .ok bytes ∧
      ∀ l ∈ labels.map (reread e), e.Survives l.name := by
  induction labels generalizing bytes with
  | nil => exact ⟨written, by simp⟩
  | cons l labels ih =>
    simp only [encodeAll, refuse_eq_ok, bind_eq_ok, pure_eq_ok] at written
    obtain ⟨inside, name, written₁, more, written₂, rfl⟩ := written
    have encoded := Encoding.write_eq_ok.mp written₁
    obtain ⟨again, survive⟩ := ih written₂
    refine ⟨?_, List.forall_mem_cons.mpr ⟨Encoding.survives_reread encoded, survive⟩⟩
    simp only [List.map_cons, encodeAll, refuse_eq_ok, bind_eq_ok, pure_eq_ok,
      Encoding.write_eq_ok]
    exact ⟨inside, name, Encoding.encode_reread encoded, more, again, rfl⟩

namespace Chart

/-- What a chart is read back as, once it was written. Its flags say whether it is shuffled. -/
def reread (c : Chart) : Chart :=
  { c.marked with
    commands := c.commands.map (Command.reread c.encoding)
    labels := c.labels.map (Label.reread c.encoding) }

/-- The version is supported, and only commands without a schema have raw bodies. -/
structure Sound (c : Chart) : Prop where
  supported : 103 ≤ c.header.version ∧ c.header.version ≤ 117
  commands : ∀ command ∈ c.commands, command.Sound

/-- The bytes of a sound chart are the image of what it is read back as. -/
theorem image_reread {c : Chart} (sound : c.Sound) (written : c.toBytes = .ok bytes)
    (small : bytes.length < 2 ^ 32) : ∃ layout, Image c.encoding bytes c.reread layout := by
  let plain : Chart :=
    { c with
      commands := c.commands.map (Command.reread c.encoding)
      labels := c.labels.map (Label.reread c.encoding) }
  obtain ⟨body, stored, encoded, stores, rfl⟩ := toBytes_eq_ok.mp written
  simp only [encodeBody, Command.encodeStream, Label.encodeTable, bind_eq_ok, pure_eq_ok] at encoded
  obtain ⟨_, ⟨stream, written₁, rfl⟩, _, ⟨table, written₂, rfl⟩, rfl⟩ := encoded
  obtain ⟨again₁, commands⟩ := Command.encodeAll_reread sound.commands written₁
  obtain ⟨again₂, names⟩ := Label.encodeAll_reread written₂
  have length : plain.length = c.length := List.length_map _
  have again : plain.encodeBody = .ok (Bytes.count c.commands.length ++ Bytes.counted stream ++
      (Bytes.count c.labels.length ++ table)) := by
    simp only [encodeBody, Command.encodeStream, Label.encodeTable, bind_eq_ok, pure_eq_ok]
    refine ⟨_, ⟨stream, again₁, rfl⟩, _, ⟨table, ?_, rfl⟩, ?_⟩
    · rw [length]
      exact again₂
    · simp only [plain, List.length_map]
  have again : plain.toBytes = .ok (c.header.encode ++ stored) :=
    toBytes_eq_ok.mpr ⟨_, stored, again, stores, rfl⟩
  have image : ∃ layout, Image plain.encoding (c.header.encode ++ stored) plain.marked layout :=
    exists_image sound.supported (fun c member => (commands c member).1)
      (fun c member => (commands c member).2) names again small
  exact image

/-! ### Charts that were read -/

variable {c : Chart} {layout : Layout}

theorem ofBytes_eq_ok : Chart.ofBytes e bytes = .ok c ↔ ∃ layout, Image e bytes c layout := by
  rw [Chart.ofBytes, bind_eq_ok]
  constructor
  · rintro ⟨⟨_, layout⟩, read, same⟩
    cases same
    exact ⟨layout, decodeLayout_eq_ok.mp read⟩
  · rintro ⟨layout, image⟩
    exact ⟨(c, layout), decodeLayout_eq_ok.mpr image, rfl⟩

theorem Image.encoding (image : Image e bytes c layout) : c.encoding = e := by
  obtain ⟨_, _, _, _, _, _, _, _, _, _, same, _, _⟩ := image
  exact same

theorem Image.length_lt (image : Image e bytes c layout) : c.commands.length < 2 ^ 32 := by
  obtain ⟨_, _, _, _, records, _, _, ⟨few, _⟩, _, _, _, commands, _⟩ := image
  rw [commands, List.length_map]
  exact few

/-- Every command of a chart that was read has a record. -/
theorem Image.spelled (image : Image e bytes c layout) {command : Command}
    (member : command ∈ c.commands) : ∃ record, Command.Spelled e record command := by
  obtain ⟨_, _, _, _, records, _, _, ⟨_, _, _, spelled, _⟩, _, _, _, commands, _⟩ := image
  rw [commands] at member
  exact spelled.many.spelled member

/-- A chart that was read is sound. -/
theorem Image.sound (image : Image e bytes c layout) : c.Sound := by
  refine ⟨?_, ?_⟩
  · obtain ⟨_, _, _, _, _, ⟨low, high, _⟩, _⟩ := image
    exact ⟨low, high⟩
  · intro command member raw
    obtain ⟨_, _, _, spelled, _⟩ := image.spelled member
    rw [Command.BodySpelled] at spelled
    split at spelled
    · obtain ⟨params, _, typed⟩ := spelled
      rw [Command.isRaw, typed] at raw
      cases raw
    · next none => exact none

end Chart

/-- A command that was read has the parameters that its schema asks for. -/
theorem Command.Spelled.params {command : Command} {params : Parameters}
    (spelled : Command.Spelled e bytes command) (typed : command.body = .typed params) :
    ∃ schema inner, command.opcode.schema? = some schema ∧ inner.length < 2 ^ 32 ∧
      Parameters.Spelled e schema inner params := by
  obtain ⟨inner, small, spelled, _⟩ := spelled
  rw [Command.BodySpelled] at spelled
  split at spelled
  · next schema known =>
    obtain ⟨_, spelled, same⟩ := spelled
    cases typed.symm.trans same
    exact ⟨schema, inner, known, small, spelled⟩
  · cases typed.symm.trans spelled

/-- The text block of a command that was read is short. -/
theorem Command.Spelled.block {command : Command} {block : TextBlock}
    (spelled : Command.Spelled e bytes command) (carries : command.text? = some block) :
    ∃ text, text.length < 2 ^ 32 ∧ TextBlock.Spelled e text block := by
  cases typed : command.body with
  | raw body =>
    rw [Command.text?, Command.params?, typed] at carries
    cases carries
  | typed params =>
    rw [Command.text?, Command.params?, typed] at carries
    have found : params.text = some block := carries
    obtain ⟨schema, _, _, small, values, text, _, spelled, rfl⟩ := spelled.params typed
    rw [List.length_append] at small
    cases carriesText : schema.carriesText with
    | false =>
      rw [carriesText] at spelled
      cases found.symm.trans spelled.2
    | true =>
      rw [carriesText] at spelled
      obtain ⟨_, spelled, same⟩ := spelled
      cases found.symm.trans same
      exact ⟨text, by omega, spelled⟩

namespace Chart

variable {c : Chart} {line : Nat} {block : TextBlock}

theorem command_eq_ok {line : Nat} {command : Command} :
    c.command line = .ok command ↔ c.commands[line]? = some command := by
  rw [Chart.command]
  cases c.commands[line]? with
  | some other => simp
  | none => simp

theorem block_eq_ok : c.block line = .ok block ↔
    ∃ command, c.commands[line]? = some command ∧ command.text? = some block := by
  simp only [Chart.block, bind_eq_ok, command_eq_ok]
  refine exists_congr fun command => and_congr_right fun _ => ?_
  cases command.text? with
  | some other => simp [pure_eq_ok]
  | none => simp

/-- The text blocks of a chart that was read are canonical, and their bytes are few. -/
theorem block_canonical (read : Chart.ofBytes e bytes = .ok c) (found : c.block line = .ok block) :
    Token.AllCanonical block.tokens ∧ Token.anyComment block.tokens = false ∧
      ∃ text, text.length < 2 ^ 32 ∧ block.encode c.encoding = .ok text := by
  obtain ⟨layout, image⟩ := ofBytes_eq_ok.mp read
  obtain ⟨command, here, carries⟩ := block_eq_ok.mp found
  obtain ⟨_, record⟩ := image.spelled (List.mem_of_getElem? here)
  obtain ⟨text, small, spelled⟩ := record.block carries
  obtain ⟨canon, free, _⟩ := spelled.canonical small
  rw [image.encoding]
  exact ⟨canon, free, text, small, spelled.encode_eq⟩

theorem line_lt (read : Chart.ofBytes e bytes = .ok c) (found : c.block line = .ok block) :
    line < Text.positionLimit := by
  obtain ⟨layout, image⟩ := ofBytes_eq_ok.mp read
  obtain ⟨command, here, _⟩ := block_eq_ok.mp found
  obtain ⟨inside, _⟩ := List.getElem?_eq_some_iff.mp here
  exact (inside.trans image.length_lt).trans (by decide)

end Chart

end NovelChart
