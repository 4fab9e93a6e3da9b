import NovelChart.Proofs.Head
import NovelChart.Proofs.Token

/-!
# The byte format of text blocks

Tokens of a block are units: a character, a break, or a tag with what it encloses. Reading gathers
them into tokens with runs of text, and writing takes the runs apart again. Both follow the nesting
of spans, with a room for further levels that runs out at the same depth.

## Main definitions

* `Markup.TokenSpelled`, `Markup.ContentSpelled`, `TextBlock.Spelled`: the formats of a unit, of
  counted content, and of a whole block
* `Token.AllSurvive`: every character and every text attribute survives the encoding

## Main results

* `TextBlock.reads_decode`: decoding accepts exactly the format
* `TextBlock.Spelled.encode_eq`: a block is written with the bytes that stand for it
* `TextBlock.spelled_of_encode`: what is written for a canonical block without comments stands for
  it
-/

namespace NovelChart

mutual

/-- Every character of a run, and every text among the attributes, survives the encoding. -/
def Token.Survives (e : Encoding) : Token → Prop
  | .text run => ∀ c ∈ run.toList, e.Survives (String.singleton c)
  | .mark tag => tag.Survives e
  | .span tag content => tag.Survives e ∧ Token.AllSurvive e content
  | _ => True

/-- All tokens survive the encoding. -/
def Token.AllSurvive (e : Encoding) : List Token → Prop
  | [] => True
  | t :: ts => t.Survives e ∧ Token.AllSurvive e ts

end

namespace Markup

open AttrEntry

/-! ### Units -/

/-- The bytes stand for one unit. What a span encloses is of the format `content`, by the number of
units. -/
inductive TokenSpelled (e : Encoding) (content : Nat → Format (List Token)) : Format Token
  | char {s : String} {bytes : List UInt8} :
      s.toList.length = 1 → bytes.length < 256 → e.decode bytes = .ok s →
      TokenSpelled e content (charToken :: UInt8.ofNat bytes.length :: bytes) (.text s)
  | lineBreak : TokenSpelled e content [breakToken, lineBreakKind] .lineBreak
  | pageBreak : TokenSpelled e content [breakToken, pageBreakKind] .pageBreak
  | mark {spec : TagSpec} {given : List AttrEntry} {head : List UInt8} :
      spec ∈ TagSpec.table → spec.paired = false → HeadSpelled e spec head given →
      TokenSpelled e content head (.mark ⟨spec.name, named given⟩)
  | span {spec : TagSpec} {given : List AttrEntry} {head body : List UInt8} {count : Nat}
      {tokens : List Token} :
      spec ∈ TagSpec.table → spec.paired = true → HeadSpelled e spec head given →
      count < 2 ^ 32 → content count body tokens →
      TokenSpelled e content (head ++ (Bytes.count count ++ body))
        (.span ⟨spec.name, named given⟩ tokens)

/-- The bytes stand for tokens that are made up of `count` units, nested less than `room` deep. -/
def ContentSpelled (e : Encoding) : Nat → Nat → Format (List Token)
  | 0, _, _, _ => False
  | room + 1, count, bytes, tokens => ∃ units : List Token, units.length = count ∧
      Format.Many (TokenSpelled e (ContentSpelled e room)) bytes units ∧
      tokens = Token.gather units

variable {e : Encoding} {content : Nat → Format (List Token)} {bytes body : List UInt8}
  {t : Token}

/-- A tag that is written as a tag: its code, the mask of its entries, and their values. -/
theorem headSpelled_tag {spec : TagSpec} {code : UInt8} {given : List AttrEntry}
    (eq : spec.code = .tag code) : HeadSpelled e spec bytes given ↔
      (given.map Prod.fst).Sublist spec.attrs.zipIdx ∧
        ∃ body, Format.Many (EntrySpelled e) body given ∧
          bytes = [tagToken, code, UInt8.ofNat (attrMask (placed given))] ++ body := by
  rw [HeadSpelled, eq]

theorem headSpelled_brk {spec : TagSpec} {kind : UInt8} {given : List AttrEntry}
    (eq : spec.code = .brk kind) : HeadSpelled e spec bytes given ↔
      (given.map Prod.fst).Sublist spec.attrs.zipIdx ∧ bytes = [breakToken, kind] := by
  rw [HeadSpelled, eq]

/-- A head starts with the type of its token. -/
theorem HeadSpelled.exists_cons {spec : TagSpec} {given : List AttrEntry}
    (spelled : HeadSpelled e spec bytes given) :
    ∃ type second rest, bytes = type :: second :: rest ∧
      (type = tagToken ∨ type = breakToken) := by
  cases code : spec.code with
  | brk kind =>
    obtain ⟨_, rfl⟩ := (headSpelled_brk code).mp spelled
    exact ⟨_, _, _, rfl, .inr rfl⟩
  | tag code' =>
    obtain ⟨_, body, _, rfl⟩ := (headSpelled_tag code).mp spelled
    exact ⟨_, _, _, rfl, .inl rfl⟩

/-- A unit starts with its type and takes at least two bytes. -/
theorem TokenSpelled.exists_cons (spelled : TokenSpelled e content bytes t) :
    ∃ type second rest, bytes = type :: second :: rest ∧
      (type = charToken ∨ type = tagToken ∨ type = breakToken) := by
  cases spelled with
  | char _ _ _ => exact ⟨_, _, _, rfl, .inl rfl⟩
  | lineBreak => exact ⟨_, _, _, rfl, .inr (.inr rfl)⟩
  | pageBreak => exact ⟨_, _, _, rfl, .inr (.inr rfl)⟩
  | mark _ _ head =>
    obtain ⟨type, second, rest, rfl, either⟩ := head.exists_cons
    exact ⟨_, _, _, rfl, .inr either⟩
  | span _ _ head _ _ =>
    obtain ⟨type, second, rest, rfl, either⟩ := head.exists_cons
    exact ⟨_, _, _, rfl, .inr either⟩

theorem TokenSpelled.two_le (spelled : TokenSpelled e content bytes t) : 2 ≤ bytes.length := by
  obtain ⟨_, _, _, rfl, _⟩ := spelled.exists_cons
  simp

theorem tokenSpelled_char_iff : TokenSpelled e content (charToken :: body) t ↔
    ∃ s bytes, s.toList.length = 1 ∧ bytes.length < 256 ∧ e.decode bytes = .ok s ∧
      body = UInt8.ofNat bytes.length :: bytes ∧ t = .text s := by
  constructor
  · intro spelled
    generalize eq : charToken :: body = bytes at spelled
    cases spelled with
    | char one low decoded => exact ⟨_, _, one, low, decoded, (List.cons.inj eq).2, rfl⟩
    | lineBreak => cases eq
    | pageBreak => cases eq
    | mark _ _ head =>
      obtain ⟨_, _, _, rfl, rfl | rfl⟩ := head.exists_cons <;> cases eq
    | span _ _ head _ _ =>
      obtain ⟨_, _, _, rfl, rfl | rfl⟩ := head.exists_cons <;> cases eq
  · rintro ⟨s, bytes, one, low, decoded, rfl, rfl⟩
    exact .char one low decoded

theorem tokenSpelled_break_iff : TokenSpelled e content (breakToken :: body) t ↔
    ∃ kind, body = [kind] ∧ ((kind = lineBreakKind ∧ t = .lineBreak) ∨
      (kind = pageBreakKind ∧ t = .pageBreak) ∨
      ∃ spec ∈ TagSpec.table, spec.code = .brk kind ∧ t = .mark ⟨spec.name, []⟩) := by
  constructor
  · intro spelled
    generalize eq : breakToken :: body = bytes at spelled
    cases spelled with
    | char => cases eq
    | lineBreak => exact ⟨_, (List.cons.inj eq).2, .inl ⟨rfl, rfl⟩⟩
    | pageBreak => exact ⟨_, (List.cons.inj eq).2, .inr (.inl ⟨rfl, rfl⟩)⟩
    | @mark spec given _ member _ head =>
      cases code : spec.code with
      | brk kind =>
        obtain ⟨sublist, rfl⟩ := (headSpelled_brk code).mp head
        obtain rfl : given = [] := eq_nil_of_brk member code fun entry listed =>
          sublist.subset (List.mem_map_of_mem listed)
        exact ⟨kind, (List.cons.inj eq).2, .inr (.inr ⟨spec, member, code, rfl⟩)⟩
      | tag code' =>
        obtain ⟨_, _, _, rfl⟩ := (headSpelled_tag code).mp head
        cases eq
    | @span spec _ _ _ _ _ member paired head _ _ =>
      -- No row that is written as a break encloses anything.
      cases code : spec.code with
      | brk kind => cases paired.symm.trans (TagSpec.attrs_of_brk member code).2.1
      | tag code' =>
        obtain ⟨_, _, _, rfl⟩ := (headSpelled_tag code).mp head
        cases eq
  · rintro ⟨kind, rfl, ⟨rfl, rfl⟩ | ⟨rfl, rfl⟩ | ⟨spec, member, code, rfl⟩⟩
    · exact .lineBreak
    · exact .pageBreak
    · -- Any other kind belongs to a row without attributes.
      change TokenSpelled e content [breakToken, kind] (.mark ⟨spec.name, named []⟩)
      refine .mark member (TagSpec.attrs_of_brk member code).2.1 ?_
      exact (headSpelled_brk code).mpr ⟨List.nil_sublist _, rfl⟩

/-- The bytes stand for what a tag encloses, which together with the tag makes the token. -/
def EnclosedSpelled (content : Nat → Format (List Token)) (tag : Tag) : Bool → Format Token
  | false, bytes, t => bytes = [] ∧ t = .mark tag
  | true, bytes, t => ∃ count body tokens, count < 2 ^ 32 ∧ content count body tokens ∧
      bytes = Bytes.count count ++ body ∧ t = .span tag tokens

theorem tokenSpelled_tag_iff : TokenSpelled e content (tagToken :: body) t ↔
    ∃ spec ∈ TagSpec.table, ∃ code given values enclosed, spec.code = .tag code ∧
      (given.map Prod.fst).Sublist spec.attrs.zipIdx ∧
      Format.Many (EntrySpelled e) values given ∧
      EnclosedSpelled content ⟨spec.name, named given⟩ spec.paired enclosed t ∧
      body = [code, UInt8.ofNat (attrMask (placed given))] ++ values ++ enclosed := by
  constructor
  · intro spelled
    generalize eq : tagToken :: body = bytes at spelled
    cases spelled with
    | char => cases eq
    | lineBreak => cases eq
    | pageBreak => cases eq
    | @mark spec given _ member single head =>
      cases code : spec.code with
      | brk kind =>
        obtain ⟨_, rfl⟩ := (headSpelled_brk code).mp head
        cases eq
      | tag code' =>
        obtain ⟨sublist, values, many, rfl⟩ := (headSpelled_tag code).mp head
        refine ⟨spec, member, code', given, values, [], code, sublist, many, ?_, ?_⟩
        · rw [single]
          exact ⟨rfl, rfl⟩
        · rw [List.append_nil]
          exact (List.cons.inj eq).2
    | @span spec given _ inner count tokens member paired head low spelled =>
      cases code : spec.code with
      | brk kind => cases paired.symm.trans (TagSpec.attrs_of_brk member code).2.1
      | tag code' =>
        obtain ⟨sublist, values, many, rfl⟩ := (headSpelled_tag code).mp head
        refine ⟨spec, member, code', given, values, _, code, sublist, many, ?_,
          (List.cons.inj eq).2⟩
        rw [paired]
        exact ⟨count, inner, tokens, low, spelled, rfl, rfl⟩
  · rintro ⟨spec, member, code, given, values, enclosed, eq, sublist, many, spelled, rfl⟩
    have head := (headSpelled_tag eq).mpr ⟨sublist, values, many, rfl⟩
    cases paired : spec.paired with
    | false =>
      rw [paired] at spelled
      obtain ⟨rfl, rfl⟩ := spelled
      rw [List.append_nil]
      exact .mark member paired head
    | true =>
      rw [paired] at spelled
      obtain ⟨count, inner, tokens, low, spelled, rfl, rfl⟩ := spelled
      exact .span member paired head low spelled

/-! ### Reading units -/

theorem reads_char (r : Reading) (start : Cursor) :
    Reads (readChar r start) fun body t =>
      TokenSpelled r.encoding content (charToken :: body) t := by
  intro c t c'
  simp only [readChar, bind_eq_ok, Prod.exists, Reads.u8 _ _ _, Reads.take _ _ _ _,
    tokenSpelled_char_iff]
  constructor
  · intro read
    obtain ⟨n, c₁, ⟨_, rfl, passes⟩, _, c₂, ⟨char, ⟨rfl, length⟩, passes'⟩, read⟩ := read
    split at read
    · cases read
    · next decoded =>
      split at read
      · next one =>
        cases read
        -- The length byte is the length, since it was read from a byte.
        have low : char.length < 256 := length ▸ n.toNat_lt
        have count : UInt8.ofNat char.length = n := by rw [length, UInt8.ofNat_toNat]
        refine ⟨_, ⟨_, _, one, low, decoded, rfl, rfl⟩, ?_⟩
        rw [count]
        exact passes.append passes'
      · cases read
  · intro spelled
    obtain ⟨_, ⟨s, char, one, low, decoded, rfl, rfl⟩, passes⟩ := spelled
    obtain ⟨c₁, passes₁, passes₂⟩ := Cursor.passes_cons.mp passes
    refine ⟨_, c₁, ⟨_, rfl, passes₁⟩, char, c', ⟨_, ⟨rfl, ?_⟩, passes₂⟩, ?_⟩
    · rw [UInt8.toNat_ofNat_of_lt' low]
    · rw [decoded]
      simp only [one, if_true]
      rfl

theorem reads_break (start : Cursor) :
    Reads (readBreak start) fun body t => TokenSpelled e content (breakToken :: body) t := by
  intro c t c'
  simp only [readBreak, bind_eq_ok, Prod.exists, Reads.u8 _ _ _, tokenSpelled_break_iff]
  constructor
  · intro read
    obtain ⟨kind, c₁, ⟨_, rfl, passes⟩, read⟩ := read
    split at read
    · next line =>
      cases read
      exact ⟨_, ⟨kind, rfl, .inl ⟨line, rfl⟩⟩, passes⟩
    · split at read
      · next page =>
        cases read
        exact ⟨_, ⟨kind, rfl, .inr (.inl ⟨page, rfl⟩)⟩, passes⟩
      · split at read
        · next spec found =>
          cases read
          exact ⟨_, ⟨kind, rfl, .inr (.inr ⟨spec, TagSpec.mem_table_of_ofCode? found,
            TagSpec.code_of_ofCode? found, rfl⟩)⟩, passes⟩
        · cases read
  · intro spelled
    obtain ⟨_, ⟨kind, rfl, shape⟩, passes⟩ := spelled
    refine ⟨kind, c', ⟨_, rfl, passes⟩, ?_⟩
    rcases shape with ⟨rfl, rfl⟩ | ⟨rfl, rfl⟩ | ⟨spec, member, code, rfl⟩
    · rfl
    · rfl
    · obtain ⟨_, _, notLine, notPage⟩ := TagSpec.attrs_of_brk member code
      have found := TagSpec.ofCode?_code spec member
      rw [code] at found
      simp only [notLine, notPage, if_false, found]
      rfl

/-- Reads what a tag encloses, if it encloses anything. -/
def readEnclosed (read : Nat → Cursor → Except FormatError (Step (List Token))) (tag : Tag)
    (paired : Bool) (c : Cursor) : Except FormatError (Step Token) :=
  if paired then do
    let (count, c) ← c.u32
    let (tokens, c) ← read count.toNat c
    return (.span tag tokens, c)
  else return (.mark tag, c)

theorem reads_enclosed {read : Nat → Cursor → Except FormatError (Step (List Token))}
    (reads : ∀ n < 2 ^ 32, Reads (read n) (content n)) (tag : Tag) (paired : Bool) :
    Reads (readEnclosed read tag paired) (EnclosedSpelled content tag paired) := by
  cases paired with
  | false => exact Reads.nothing (Token.mark tag)
  | true =>
    intro c t c'
    simp only [readEnclosed, EnclosedSpelled, if_true, bind_eq_ok, pure_eq_ok, Prod.exists,
      Prod.mk.injEq, Reads.u32 _ _ _]
    constructor
    · intro read
      obtain ⟨count, c₁, ⟨_, rfl, passes₁⟩, tokens, c₂, enclosed, rfl, rfl⟩ := read
      obtain ⟨inner, spelled, passes₂⟩ := (reads _ count.toNat_lt _ _ _).mp enclosed
      refine ⟨_, ⟨count.toNat, inner, tokens, count.toNat_lt, spelled, rfl, rfl⟩, ?_⟩
      rw [Bytes.count_toNat]
      exact passes₁.append passes₂
    · intro spelled
      obtain ⟨_, ⟨count, inner, tokens, low, spelled, rfl, rfl⟩, passes⟩ := spelled
      obtain ⟨c₁, passes₁, passes₂⟩ := Cursor.passes_append.mp passes
      have length : (UInt32.ofNat count).toNat = count := UInt32.toNat_ofNat_of_lt' low
      refine ⟨_, c₁, ⟨_, rfl, passes₁⟩, tokens, c', ?_, rfl, rfl⟩
      rw [length]
      exact (reads count low _ _ _).mpr ⟨inner, spelled, passes₂⟩

theorem reads_tag (r : Reading) {read : Nat → Cursor → Except FormatError (Step (List Token))}
    (reads : ∀ n < 2 ^ 32, Reads (read n) (content n)) (start : Cursor) :
    Reads (readTag r read start) fun body t =>
      TokenSpelled r.encoding content (tagToken :: body) t := by
  intro c t c'
  simp only [readTag, fault, bind_eq_ok, Prod.exists, Reads.u8 _ _ _, tokenSpelled_tag_iff]
  constructor
  · intro read
    obtain ⟨code, c₁, ⟨_, rfl, passes₁⟩, read⟩ := read
    split at read
    · cases read
    · next spec found =>
      simp only [refuse_eq_ok, bind_eq_ok, Prod.exists, Reads.u8 _ _ _, reads_attrs _ _ _ _ _ _ _ _,
        ne_eq, Decidable.not_not] at read
      obtain ⟨mask, c₂, ⟨_, rfl, passes₂⟩, narrow, _, c₃, ⟨values, ⟨given, chosen, many, rfl⟩,
        passes₃⟩, read⟩ := read
      have sublist : (given.map Prod.fst).Sublist spec.attrs.zipIdx := by
        rw [chosen]
        exact List.filter_sublist
      -- The mask that was read is the mask of the entries that it chose.
      have same : UInt8.ofNat (attrMask (placed given)) = mask := by
        rw [attrMask_of_filter narrow chosen, UInt8.ofNat_toNat]
      obtain ⟨enclosed, spelled, passes₄⟩ := (reads_enclosed reads _ _ _ _ _).mp read
      refine ⟨_, ⟨spec, TagSpec.mem_table_of_ofCode? found, code, given, values, enclosed,
        TagSpec.code_of_ofCode? found, sublist, many, spelled, rfl⟩, ?_⟩
      rw [same]
      exact ((passes₁.append passes₂).append passes₃).append passes₄
  · intro spelled
    obtain ⟨body, ⟨spec, member, code, given, values, enclosed, eq, sublist, many, spelled, rfl⟩,
      passes⟩ := spelled
    have found := TagSpec.ofCode?_code spec member
    rw [eq] at found
    obtain ⟨c₃, passes, passes₄⟩ := Cursor.passes_append.mp passes
    obtain ⟨c₂, passes, passes₃⟩ := Cursor.passes_append.mp passes
    obtain ⟨c₁, passes₁, passes₂⟩ := Cursor.passes_cons.mp passes
    have mask := toNat_attrMask member sublist
    refine ⟨code, c₁, ⟨_, rfl, passes₁⟩, ?_⟩
    simp only [found, refuse_eq_ok, bind_eq_ok, Prod.exists, Reads.u8 _ _ _,
      reads_attrs _ _ _ _ _ _ _ _, ne_eq, Decidable.not_not]
    refine ⟨_, c₂, ⟨_, rfl, passes₂⟩, ?_, named given, c₃, ⟨values, ⟨given, ?_, many, rfl⟩,
      passes₃⟩, ?_⟩
    · rw [mask, Nat.shiftRight_eq_div_pow]
      exact Nat.div_eq_of_lt (attrMask_lt sublist)
    · rw [mask, filter_testBit_attrMask sublist]
    · exact (reads_enclosed reads _ _ _ _ _).mpr ⟨enclosed, spelled, passes₄⟩

/-- Reading a token accepts exactly the units, if reading content accepts exactly content. -/
theorem reads_token (r : Reading) {read : Nat → Cursor → Except FormatError (Step (List Token))}
    (reads : ∀ n < 2 ^ 32, Reads (read n) (content n)) :
    Reads (readToken r read) (TokenSpelled r.encoding content) := by
  intro c t c'
  simp only [readToken, bind_eq_ok, Prod.exists, Reads.u8 _ _ _]
  constructor
  · intro read
    obtain ⟨type, c₁, ⟨_, rfl, passes⟩, read⟩ := read
    split at read
    · next char =>
      obtain ⟨body, spelled, passes'⟩ := (reads_char r c _ _ _).mp read
      exact ⟨_, spelled, char ▸ passes.append passes'⟩
    · split at read
      · next tag =>
        obtain ⟨body, spelled, passes'⟩ := (reads_tag r reads c _ _ _).mp read
        exact ⟨_, spelled, tag ▸ passes.append passes'⟩
      · split at read
        · next brk =>
          obtain ⟨body, spelled, passes'⟩ := (reads_break c _ _ _).mp read
          exact ⟨_, spelled, brk ▸ passes.append passes'⟩
        · cases read
  · intro spelled
    obtain ⟨bytes, spelled, passes⟩ := spelled
    -- The first byte tells which of the three readers is called.
    obtain ⟨type, second, rest, rfl, either⟩ := spelled.exists_cons
    obtain ⟨c₁, passes₁, passes₂⟩ := Cursor.passes_cons.mp passes
    refine ⟨type, c₁, ⟨_, rfl, passes₁⟩, ?_⟩
    rcases either with rfl | rfl | rfl
    · exact (reads_char r c _ _ _).mpr ⟨_, spelled, passes₂⟩
    · exact (reads_tag r reads c _ _ _).mpr ⟨_, spelled, passes₂⟩
    · exact (reads_break c _ _ _).mpr ⟨_, spelled, passes₂⟩

/-- Reading tokens is reading units and gathering them. -/
theorem readTokens_eq (r : Reading)
    (read : Nat → Cursor → Except FormatError (Step (List Token))) (n : Nat) (c : Cursor) :
    readTokens r read n c = do
      let (units, c) ← Cursor.many (readToken r read) n c
      return (Token.gather units, c) := by
  induction n generalizing c with
  | zero => rfl
  | succ n ih =>
    rw [readTokens, Cursor.many]
    cases first : readToken r read c with
    | error f => rfl
    | ok step =>
      simp only [bind, Except.bind, ih]
      cases Cursor.many (readToken r read) n step.2 <;> rfl

/-- Reading content accepts exactly the format, guarded or not. -/
theorem reads_content (r : Reading) (room count : Nat) :
    Reads (readContent r room count) (ContentSpelled r.encoding room count) := by
  induction room generalizing count with
  | zero =>
    -- Without room nothing is read, and nothing is content.
    intro c tokens c'
    constructor
    · intro read
      cases read
    · intro spelled
      obtain ⟨_, absurd, _⟩ := spelled
      exact absurd.elim
  | succ room ih =>
    have gathered := ((reads_token r fun n _ => ih n).many count).map Token.gather
    intro c tokens c'
    rw [readContent]
    constructor
    · intro read
      split at read
      · rw [readTokens_eq] at read
        obtain ⟨bytes, ⟨units, ⟨length, many⟩, gather⟩, passes⟩ := (gathered c tokens c').mp read
        exact ⟨bytes, ⟨units, length, many, gather⟩, passes⟩
      · cases read
    · intro spelled
      obtain ⟨bytes, ⟨units, length, many, gather⟩, passes⟩ := spelled
      -- Units of two bytes or more are there, so the guard on the count does not object.
      have enough : count * 2 ≤ c.remaining := by
        have least := many.length_le fun _ _ => TokenSpelled.two_le
        rw [passes.remaining]
        omega
      rw [Cursor.admits_of_le enough, if_pos rfl, readTokens_eq]
      exact (gathered c tokens c').mpr ⟨bytes, ⟨units, ⟨length, many⟩, gather⟩, passes⟩

/-! ### Writing units -/

variable {depth : Nat}

theorem encodeRun_append (cs ds : List Char) :
    encodeRun e (cs ++ ds) = do
      let bytes ← encodeRun e cs
      let more ← encodeRun e ds
      return bytes ++ more := by
  induction cs with
  | nil =>
    rw [List.nil_append]
    cases encodeRun e ds <;> rfl
  | cons c cs ih =>
    rw [List.cons_append, encodeRun, encodeRun, ih]
    cases e.write (String.singleton c) with
    | error f => rfl
    | ok first =>
      cases encodeRun e cs with
      | error f => rfl
      | ok bytes =>
        cases encodeRun e ds with
        | error f => rfl
        | ok more => simp [bind, Except.bind, pure, Except.pure]

/-- Joining runs of text does not change what is written. -/
theorem encodeTokens_join (t : Token) (ts : List Token) :
    encodeTokens e depth (t.join ts) = encodeTokens e depth (t :: ts) := by
  cases t with
  | text a =>
    cases ts with
    | nil => rfl
    | cons u ts =>
      cases u with
      | text b =>
        -- The characters of both runs are written one after the other either way.
        simp only [Token.join, encodeTokens, encodeToken, String.toList_append, encodeRun_append]
        cases encodeRun e a.toList with
        | error f => rfl
        | ok bytes =>
          cases encodeRun e b.toList with
          | error f => rfl
          | ok more =>
            cases encodeTokens e depth ts with
            | error f => rfl
            | ok rest => simp [bind, Except.bind, pure, Except.pure, Nat.add_assoc]
      | _ => rfl
  | _ => rfl

theorem encodeTokens_cons_congr {ts us : List Token} (t : Token)
    (same : encodeTokens e depth ts = encodeTokens e depth us) :
    encodeTokens e depth (t :: ts) = encodeTokens e depth (t :: us) := by
  simp only [encodeTokens, same]

/-- Gathering units does not change what is written. -/
theorem encodeTokens_gather (units : List Token) :
    encodeTokens e depth (Token.gather units) = encodeTokens e depth units := by
  induction units with
  | nil => rfl
  | cons t ts ih =>
    calc encodeTokens e depth (Token.gather (t :: ts))
      _ = encodeTokens e depth (t.join (Token.gather ts)) := rfl
      _ = encodeTokens e depth (t :: Token.gather ts) := encodeTokens_join t _
      _ = encodeTokens e depth (t :: ts) := encodeTokens_cons_congr t ih

theorem encodeTokens_cons_eq_ok {ts : List Token} {count : Nat} {bytes : List UInt8} :
    encodeTokens e depth (t :: ts) = .ok (count, bytes) ↔
      ∃ n first m more, encodeToken e depth t = .ok (n, first) ∧
        encodeTokens e depth ts = .ok (m, more) ∧ count = n + m ∧ bytes = first ++ more := by
  simp only [encodeTokens, bind_eq_ok, pure_eq_ok, Prod.exists, Prod.mk.injEq]
  constructor
  · rintro ⟨n, first, written₁, m, more, written₂, rfl, rfl⟩
    exact ⟨n, first, m, more, written₁, written₂, rfl, rfl⟩
  · rintro ⟨n, first, m, more, written₁, written₂, rfl, rfl⟩
    exact ⟨n, first, written₁, m, more, written₂, rfl, rfl⟩

/-- A unit is written as one unit, with the bytes that stand for it. -/
theorem TokenSpelled.encode_eq (spelled : TokenSpelled e content bytes t)
    (encodes : ∀ {count body tokens}, content count body tokens →
      depth < maxDepth ∧ encodeTokens e (depth + 1) tokens = .ok (count, body)) :
    encodeToken e depth t = .ok (1, bytes) := by
  cases spelled with
  | @char s body one low decoded =>
    obtain ⟨c, single⟩ := List.length_eq_one_iff.mp one
    have written : e.write (String.singleton c) = .ok body := by
      rw [Encoding.write_eq_ok, String.singleton_eq_ofList, ← single, String.ofList_toList]
      exact Encoding.encode_of_decode decoded
    simp [encodeToken, single, encodeRun, written, bind, Except.bind, pure, Except.pure]
  | lineBreak => rfl
  | pageBreak => rfl
  | mark member single head =>
    have written := head.encode_eq member
    rw [single] at written
    simp [encodeToken, written, bind, Except.bind, pure, Except.pure]
  | span member paired head low enclosed =>
    have written := head.encode_eq member
    obtain ⟨shallow, inner⟩ := encodes enclosed
    rw [paired] at written
    simp [encodeToken, written, inner, Nat.not_le.mpr shallow, bind, Except.bind, pure, Except.pure]

/-- Content is written with the bytes that stand for it. -/
theorem ContentSpelled.encode_eq {room count : Nat} {tokens : List Token}
    (spelled : ContentSpelled e room count bytes tokens) (level : depth + room = maxDepth + 1) :
    encodeTokens e depth tokens = .ok (count, bytes) := by
  induction room generalizing depth count bytes tokens with
  | zero => exact spelled.elim
  | succ room ih =>
    obtain ⟨units, rfl, many, rfl⟩ := spelled
    rw [encodeTokens_gather]
    -- One level down there is one room less, so the writer's limit is not reached before the
    -- reader's.
    have encodes : ∀ {count body tokens}, ContentSpelled e room count body tokens →
        depth < maxDepth ∧ encodeTokens e (depth + 1) tokens = .ok (count, body) := by
      intro count body tokens enclosed
      refine ⟨?_, ih enclosed (by omega)⟩
      cases room with
      | zero => exact enclosed.elim
      | succ room => omega
    induction many with
    | nil => rfl
    | @cons first t more ts spelled _ ih' =>
      exact encodeTokens_cons_eq_ok.mpr
        ⟨1, first, ts.length, more, spelled.encode_eq encodes, ih', Nat.add_comm _ _, rfl⟩

/-! ### What is written for canonical tokens -/

variable {room : Nat}

/-- The characters of a run are written as units, if each of them survives. -/
theorem many_of_encodeRun {cs : List Char} (written : encodeRun e cs = .ok bytes)
    (survive : ∀ c ∈ cs, e.Survives (String.singleton c)) :
    Format.Many (TokenSpelled e content) bytes (cs.map fun c => .text (String.singleton c)) := by
  induction cs generalizing bytes with
  | nil =>
    cases written
    exact .nil
  | cons c cs ih =>
    simp only [encodeRun, bind_eq_ok, pure_eq_ok] at written
    obtain ⟨char, written₁, more, written₂, rfl⟩ := written
    have encoded := Encoding.write_eq_ok.mp written₁
    have decoded := (survive c List.mem_cons_self).decode encoded
    -- The length of a character always fits its byte.
    have short := (Encoding.length_encodeChar (Encoding.encode_singleton.mp encoded)).2
    refine .cons (.char (by simp) (by omega) decoded) ?_
    exact ih written₂ fun c member => survive c (List.mem_cons_of_mem _ member)

mutual

/-- What is written for a canonical token are its units, if its texts survive. -/
theorem many_of_encodeToken (depth room : Nat) (level : depth + room = maxDepth) :
    ∀ (t : Token) {n : Nat} {bytes : List UInt8}, encodeToken e depth t = .ok (n, bytes) →
      t.IsCanonical → t.hasComment = false → t.Survives e → bytes.length < 2 ^ 32 →
      t.units.length = n ∧ Format.Many (TokenSpelled e (ContentSpelled e room)) bytes t.units
  | .text run, n, bytes, written, _, _, survives, _ => by
    simp only [encodeToken, bind_eq_ok, pure_eq_ok, Prod.mk.injEq] at written
    obtain ⟨_, written, rfl, rfl⟩ := written
    exact ⟨by simp [Token.units], many_of_encodeRun written survives⟩
  | .lineBreak, _, _, rfl, _, _, _, _ => ⟨rfl, .singleton .lineBreak⟩
  | .pageBreak, _, _, rfl, _, _, _, _ => ⟨rfl, .singleton .pageBreak⟩
  | .comment _, _, _, _, _, free, _, _ => by cases free
  | .mark tag, n, bytes, written, canon, _, survives, small => by
    simp only [encodeToken, bind_eq_ok, pure_eq_ok, Prod.mk.injEq] at written
    obtain ⟨head, written, rfl, rfl⟩ := written
    obtain ⟨spec, canon, single⟩ := canon
    rw [← single] at written
    obtain ⟨given, rfl, spelled⟩ := spelled_of_encodeHead canon survives written small
    exact ⟨rfl, .singleton (.mark canon.1 single spelled)⟩
  | .span tag tokens, n, bytes, written, canon, free, survives, small => by
    simp only [encodeToken, bind_eq_ok, pure_eq_ok, refuse_eq_ok, Prod.exists, Prod.mk.injEq]
      at written
    obtain ⟨head, written, shallow, count, body, inner, rfl, rfl⟩ := written
    obtain ⟨⟨spec, canon, paired⟩, canon'⟩ := canon
    rw [← paired] at written
    simp only [List.length_append] at small
    obtain ⟨given, rfl, spelled⟩ := spelled_of_encodeHead canon survives.1 written (by omega)
    -- The span stands above the deepest level, so there is room for its content.
    obtain ⟨room, rfl⟩ : ∃ rest, room = rest + 1 := ⟨room - 1, by omega⟩
    obtain ⟨length, many⟩ := many_of_encodeTokens (depth + 1) room (by omega) tokens inner canon'
      free survives.2 (by omega)
    -- Gathering the units gives the content back because it is canonical.
    have few := many.length_le fun _ _ => TokenSpelled.two_le
    have enclosed : ContentSpelled e (room + 1) count body tokens :=
      ⟨tokens.flatMap Token.units, length, many, (Token.gather_units canon').symm⟩
    rw [List.append_assoc]
    exact ⟨rfl, .singleton (.span canon.1 paired spelled (by omega) enclosed)⟩

/-- What is written for canonical tokens are their units, if their texts survive. -/
theorem many_of_encodeTokens (depth room : Nat) (level : depth + room = maxDepth) :
    ∀ (ts : List Token) {n : Nat} {bytes : List UInt8}, encodeTokens e depth ts = .ok (n, bytes) →
      Token.AllCanonical ts → Token.anyComment ts = false → Token.AllSurvive e ts →
      bytes.length < 2 ^ 32 → (ts.flatMap Token.units).length = n ∧
        Format.Many (TokenSpelled e (ContentSpelled e room)) bytes (ts.flatMap Token.units)
  | [], _, _, rfl, _, _, _, _ => ⟨rfl, .nil⟩
  | t :: ts, n, bytes, written, canon, free, survive, small => by
    obtain ⟨n, first, m, more, written₁, written₂, rfl, rfl⟩ := encodeTokens_cons_eq_ok.mp written
    obtain ⟨canon₁, _, canon₂⟩ := canon
    obtain ⟨free₁, free₂⟩ := Bool.or_eq_false_iff.mp free
    rw [List.length_append] at small
    obtain ⟨rfl, many₁⟩ := many_of_encodeToken depth room level t written₁ canon₁ free₁ survive.1
      (by omega)
    obtain ⟨rfl, many₂⟩ := many_of_encodeTokens depth room level ts written₂ canon₂ free₂ survive.2
      (by omega)
    rw [List.flatMap_cons, List.length_append]
    exact ⟨rfl, many₁.append many₂⟩

end

/-! ### Versions -/

/-- The digits of a version, as bytes. -/
def versionDigits (version : UInt16) : List UInt8 :=
  (Text.threeDigits version.toNat).map fun c => UInt8.ofNat c.toNat

theorem versionDigits_eq {version : UInt16} (low : version.toNat ≤ 999) :
    versionDigits version = [UInt8.ofNat (48 + version.toNat / 100),
      UInt8.ofNat (48 + version.toNat / 10 % 10), UInt8.ofNat (48 + version.toNat % 10)] := by
  -- A digit is written as its distance from the character zero.
  have digit : ∀ d < 10, (Nat.digitChar d).toNat = 48 + d := by decide
  rw [versionDigits, Text.threeDigits_eq (by omega), List.map_cons, List.map_cons, List.map_cons,
    List.map_nil, digit _ (by omega), digit _ (by omega), digit _ (by omega)]

/-- Three bytes are read as a version exactly when they are its digits. -/
theorem readVersion_eq_some {digits : List UInt8} {version : UInt16} (three : digits.length = 3) :
    readVersion digits = some version ↔
      version.toNat ≤ 999 ∧ digits = versionDigits version := by
  match digits, three with
  | [x, y, z], _ =>
    have byte : ∀ (b : UInt8) (n : Nat), n < 256 → (b = UInt8.ofNat n ↔ b.toNat = n) := by
      intro b n small
      rw [← UInt8.toNat_inj, UInt8.toNat_ofNat_of_lt' small]
    simp only [readVersion, List.all_cons, List.all_nil, Bool.and_true, Bool.and_eq_true,
      decide_eq_true_eq, UInt8.le_iff_toNat_le, List.foldl_cons, List.foldl_nil,
      Option.ite_none_right_eq_some, Option.some.injEq]
    -- Both sides say the same about the values of the three bytes and of the version.
    constructor
    · rintro ⟨⟨⟨x₁, x₂⟩, ⟨y₁, y₂⟩, z₁, z₂⟩, rfl⟩
      simp only [UInt8.reduceToNat] at x₁ x₂ y₁ y₂ z₁ z₂
      have value : (UInt16.ofNat (((0 * 10 + (x.toNat - 48)) * 10 + (y.toNat - 48)) * 10 +
          (z.toNat - 48))).toNat =
          ((0 * 10 + (x.toNat - 48)) * 10 + (y.toNat - 48)) * 10 + (z.toNat - 48) :=
        UInt16.toNat_ofNat_of_lt' (by change _ < 65536; omega)
      have low : (UInt16.ofNat (((0 * 10 + (x.toNat - 48)) * 10 + (y.toNat - 48)) * 10 +
          (z.toNat - 48))).toNat ≤ 999 := by omega
      refine ⟨low, ?_⟩
      rw [versionDigits_eq low, value, List.cons.injEq, List.cons.injEq, List.cons.injEq,
        byte _ _ (by omega), byte _ _ (by omega), byte _ _ (by omega)]
      exact ⟨by omega, by omega, by omega, rfl⟩
    · rintro ⟨low, eq⟩
      rw [versionDigits_eq low, List.cons.injEq, List.cons.injEq, List.cons.injEq,
        byte _ _ (by omega), byte _ _ (by omega), byte _ _ (by omega)] at eq
      obtain ⟨hundreds, tens, ones, _⟩ := eq
      refine ⟨by simp only [UInt8.reduceToNat]; omega, ?_⟩
      rw [← UInt16.toNat_inj, UInt16.toNat_ofNat_of_lt' (by change _ < 65536; omega)]
      omega

end Markup

namespace TextBlock

variable {e : Encoding} {bytes : List UInt8} {block : TextBlock}

/-- The bytes stand for a block. -/
def Spelled (e : Encoding) : Format TextBlock := fun bytes block =>
  block.version.toNat ≤ 999 ∧ ∃ count body, count < 2 ^ 32 ∧
    Markup.ContentSpelled e (maxDepth + 1) count body block.tokens ∧
    bytes = Markup.signature ++ (Markup.versionDigits block.version ++ (Bytes.count count ++ body))

/-- Decoding accepts exactly the format of blocks. -/
theorem reads_decode (r : Reading) : Reads (decode r) (Spelled r.encoding) := by
  intro c block c'
  simp only [decode, Markup.fault, bind_eq_ok, Prod.exists, Reads.take _ _ _ _, refuse_eq_ok, ne_eq,
    Decidable.not_not]
  constructor
  · intro read
    obtain ⟨_, c₁, ⟨_, ⟨rfl, _⟩, passes₁⟩, rfl, digits, c₂, ⟨_, ⟨rfl, three⟩, passes₂⟩, read⟩ :=
      read
    split at read
    · cases read
    · next version digits' =>
      simp only [bind_eq_ok, pure_eq_ok, Prod.exists, Reads.u32 _ _ _, Prod.mk.injEq,
        Markup.reads_content _ _ _ _ _ _] at read
      obtain ⟨count, c₃, ⟨_, rfl, passes₃⟩, tokens, c₄, ⟨body, spelled, passes₄⟩, rfl, rfl⟩ := read
      obtain ⟨low, rfl⟩ := (Markup.readVersion_eq_some three).mp digits'
      refine ⟨_, ⟨low, count.toNat, body, count.toNat_lt, spelled, rfl⟩, ?_⟩
      rw [Bytes.count_toNat]
      exact passes₁.append (passes₂.append (passes₃.append passes₄))
  · intro spelled
    obtain ⟨_, ⟨low, count, body, few, spelled, rfl⟩, passes⟩ := spelled
    obtain ⟨c₁, passes₁, passes⟩ := Cursor.passes_append.mp passes
    obtain ⟨c₂, passes₂, passes⟩ := Cursor.passes_append.mp passes
    obtain ⟨c₃, passes₃, passes₄⟩ := Cursor.passes_append.mp passes
    have three : (Markup.versionDigits block.version).length = 3 := by
      rw [Markup.versionDigits_eq low]
      rfl
    have length : (UInt32.ofNat count).toNat = count := UInt32.toNat_ofNat_of_lt' few
    refine ⟨_, c₁, ⟨_, ⟨rfl, rfl⟩, passes₁⟩, rfl, _, c₂, ⟨_, ⟨rfl, three⟩, passes₂⟩, ?_⟩
    rw [(Markup.readVersion_eq_some three).mpr ⟨low, rfl⟩]
    simp only [bind_eq_ok, pure_eq_ok, Prod.exists, Reads.u32 _ _ _, Prod.mk.injEq,
      Markup.reads_content _ _ _ _ _ _]
    refine ⟨_, c₃, ⟨_, rfl, passes₃⟩, block.tokens, c', ⟨body, ?_, passes₄⟩, rfl, rfl⟩
    rw [length]
    exact spelled

/-- A block is written with the bytes that stand for it. -/
theorem Spelled.encode_eq (spelled : Spelled e bytes block) : block.encode e = .ok bytes := by
  obtain ⟨low, count, body, _, spelled, rfl⟩ := spelled
  have written : Markup.encodeTokens e 0 block.tokens = .ok (count, body) :=
    spelled.encode_eq (Nat.zero_add _)
  simp only [encode, Nat.not_lt.mpr low, if_false, written, bind_eq_ok, pure_eq_ok]
  refine ⟨_, rfl, ?_⟩
  simp only [List.append_assoc, Markup.versionDigits]

/-- What is written for a canonical block without comments stands for it, if its texts survive. -/
theorem spelled_of_encode (written : block.encode e = .ok bytes)
    (canon : Token.AllCanonical block.tokens) (free : Token.anyComment block.tokens = false)
    (survive : Token.AllSurvive e block.tokens) (small : bytes.length < 2 ^ 32) :
    Spelled e bytes block := by
  simp only [encode, refuse_eq_ok, bind_eq_ok, pure_eq_ok, Prod.exists] at written
  obtain ⟨low, count, body, written, rfl⟩ := written
  simp only [List.length_append] at small
  obtain ⟨length, many⟩ := Markup.many_of_encodeTokens 0 maxDepth (Nat.zero_add _) block.tokens
    written canon free survive (by omega)
  have few := many.length_le fun _ _ => Markup.TokenSpelled.two_le
  refine ⟨by omega, count, body, by omega, ?_, ?_⟩
  · exact ⟨_, length, many, (Token.gather_units canon).symm⟩
  · simp only [List.append_assoc, Markup.versionDigits]

end TextBlock

end NovelChart
