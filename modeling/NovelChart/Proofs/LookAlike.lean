import NovelChart.Proofs.Encoding

/-!
# Characters that share a code

UTF-8 gives every character a code of its own. CP932 does so with three exceptions: the yen sign,
the overline and the minus sign are written with the code of a look-alike, and are read back as the
look-alike. Apart from these three, what is written is read back as it was; in any case, what is
read back is written with the same bytes.

The double-byte table decides this for the characters that take two bytes. Reading it forwards
undoes reading it backwards, since each entry of the reversed table comes from a place of a row and
that place alone determines the two bytes.

## Main definitions

* `Encoding.reread`: what a text is read back as, once it was written

## Main results

* `Encoding.DoubleByte.pair_of_code?`: the code of a character spells that character
* `Encoding.decode_of_encode`: what was written is read back as `reread` says
* `Encoding.encode_reread`: and that is written with the same bytes
-/

namespace NovelChart.Encoding

/-! ### The double-byte table -/

namespace DoubleByte

variable {c : Char} {lead trail : UInt8}

/-- The code of a character stands in the table. -/
theorem mem_spellings (found : code? c = some (lead, trail)) : (c, lead, trail) ∈ spellings := by
  rw [code?, codes, Std.HashMap.ofList_eq_insertMany_empty, Std.HashMap.getElem?_insertMany_list,
    Std.HashMap.getElem?_empty, Option.or_none, List.findSomeRev?_eq_findSome?_reverse] at found
  obtain ⟨entry, member, here⟩ := List.exists_of_findSome?_eq_some found
  obtain ⟨⟨c', code⟩, listed, rfl⟩ := List.mem_map.mp (List.mem_reverse.mp member)
  dsimp only at here
  rw [Option.ite_none_right_eq_some, beq_iff_eq, Option.some.injEq] at here
  obtain ⟨same, rfl⟩ := here
  obtain rfl : c' = c := Char.toNat_inj.mp same
  exact listed

/-- A character of the table has a code. -/
theorem exists_code? (member : (c, lead, trail) ∈ spellings) : ∃ code, code? c = some code := by
  have listed : c.toNat ∈ codes := by
    rw [codes, Std.HashMap.mem_ofList, List.contains_iff_mem]
    exact List.mem_map.mpr ⟨_, List.mem_map_of_mem member, rfl⟩
  exact ⟨codes[c.toNat], Std.HashMap.getElem?_eq_some_getElem listed⟩

theorem leads_distinct : (rows.map Prod.fst).Nodup := by
  decide

theorem isLead_of_row : ∀ row ∈ rows, isLead row.1 = true ∧ isAliasLead row.1 = false ∧
    singleByte? row.1 = none := by
  decide

/-- A trail byte is found at its place. -/
theorem place?_trail {i : Nat} (found : trails[i]? = some trail) : place? trail = some i := by
  have inside := (List.getElem?_eq_some_iff.mp found).1
  simp only [trails, List.length_append, List.length_map, List.length_range] at inside
  rw [trails, List.getElem?_append, List.length_map, List.length_range] at found
  simp only [place?, Bool.and_eq_true, decide_eq_true_eq, UInt8.le_iff_toNat_le,
    UInt8.reduceToNat]
  split at found
  · next front =>
    rw [List.getElem?_map, List.getElem?_range front] at found
    have code : trail.toNat = 0x40 + i := by
      rw [← Option.some.inj found, UInt8.toNat_ofNat']
      omega
    rw [if_pos (by omega), code, Nat.add_sub_cancel_left]
  · next back =>
    rw [List.getElem?_map, List.getElem?_range (by omega)] at found
    have code : trail.toNat = 0x41 + i := by
      rw [← Option.some.inj found, UInt8.toNat_ofNat']
      omega
    rw [if_neg (by omega), if_pos (by omega), code, Nat.add_sub_cancel_left]

/-- The characters of the table are those that stand in the rows. -/
theorem mem_spellings_iff : (c, lead, trail) ∈ spellings ↔ ∃ row, (lead, row) ∈ rows ∧
    ∃ i : Nat, trails[i]? = some trail ∧ row.toList[i]? = some c ∧ c ≠ '!' ∧ c ≠ '?' := by
  rw [spellings, List.mem_flatMap]
  constructor
  · rintro ⟨⟨lead', row⟩, member, listed⟩
    obtain ⟨⟨trail', mark⟩, zipped, kept⟩ := List.mem_filterMap.mp listed
    dsimp only at kept
    rw [Option.ite_none_left_eq_some, Option.some.injEq, Prod.mk.injEq, Prod.mk.injEq] at kept
    obtain ⟨plain, rfl, rfl, rfl⟩ := kept
    rw [not_or] at plain
    obtain ⟨i, here⟩ := List.mem_iff_getElem?.mp zipped
    rw [List.getElem?_zip_eq_some] at here
    exact ⟨row, member, i, here.1, here.2, plain.1, plain.2⟩
  · rintro ⟨row, member, i, found, here, plain₁, plain₂⟩
    refine ⟨(lead, row), member, List.mem_filterMap.mpr ⟨(trail, c), ?_, ?_⟩⟩
    · exact List.mem_iff_getElem?.mpr ⟨i, List.getElem?_zip_eq_some.mpr ⟨found, here⟩⟩
    · exact if_neg (not_or.mpr ⟨plain₁, plain₂⟩)

/-- The code of a character spells that character. -/
theorem pair_of_code? (found : code? c = some (lead, trail)) :
    isLead lead = true ∧ singleByte? lead = none ∧ pair lead trail = .char c := by
  obtain ⟨row, member, i, found, here, plain₁, plain₂⟩ := mem_spellings_iff.mp (mem_spellings found)
  obtain ⟨leads, notAlias, notSingle⟩ := isLead_of_row _ member
  refine ⟨leads, notSingle, ?_⟩
  rw [pair, place?_trail found, notAlias]
  simp only [(lookup_eq_some_iff leads_distinct).mpr member, here, Pair.ofMark, plain₁, plain₂,
    Bool.false_eq_true, if_false]

/-- The rows are made of these characters. -/
def MadeOf (rows : List (UInt8 × String)) (lists : List (UInt8 × List Char)) : Prop :=
  rows = lists.map fun list => (list.1, String.ofList list.2)

section

variable {rows : List (UInt8 × String)} {lists : List (UInt8 × List Char)}

theorem MadeOf.cons {row : String} {cs : List Char} (same : row = String.ofList cs)
    (made : MadeOf rows lists) : MadeOf ((lead, row) :: rows) ((lead, cs) :: lists) := by
  rw [MadeOf, made, same, List.map_cons]

/-- What is checked of all characters and their places holds in the rows. -/
theorem MadeOf.forall_getElem? {p : UInt8 → Nat → Char → Bool} (made : MadeOf rows lists)
    (all : (lists.all fun list => list.2.zipIdx.all fun k => p list.1 k.2 k.1) = true) :
    ∀ row ∈ rows, ∀ (i : Nat) (c : Char), row.2.toList[i]? = some c → p row.1 i c = true := by
  rw [made, List.forall_mem_map]
  intro list member i c here
  rw [String.toList_ofList] at here
  have all := List.all_eq_true.mp all list member
  exact List.all_eq_true.mp all (c, i) (List.mem_zipIdx_iff_getElem?.mpr here)

end

set_option maxRecDepth 4000 in
/-- The rows hold characters of the basic plane, and the full-width hyphen stands at one place of
the first row only. -/
theorem row_chars {row : UInt8 × String} {i : Nat} (member : row ∈ rows)
    (here : row.2.toList[i]? = some c) :
    c.toNat < 0x10000 ∧ (c = '－' → row.1 = 0x81 ∧ i = 60) := by
  have checked : ∀ row ∈ rows, ∀ (i : Nat) (c : Char), row.2.toList[i]? = some c →
      decide (c.toNat < 0x10000 ∧ (c = '－' → row.1 = 0x81 ∧ i = 60)) = true := by
    apply MadeOf.forall_getElem?
      (p := fun lead i c => decide (c.toNat < 0x10000 ∧ (c = '－' → lead = 0x81 ∧ i = 60)))
    case made =>
      rw [rows]
      repeat' first | apply MadeOf.cons rfl | exact List.map_nil.symm
    case all => decide +kernel
  exact of_decide_eq_true (checked row member i c here)

/-- Characters beyond the basic plane have no code. -/
theorem code?_of_beyond (beyond : 0x10000 ≤ c.toNat) : code? c = none := by
  by_contra present
  obtain ⟨⟨lead, trail⟩, found⟩ := Option.ne_none_iff_exists'.mp present
  obtain ⟨row, member, i, _, here, _⟩ := mem_spellings_iff.mp (mem_spellings found)
  exact Nat.not_lt.mpr beyond (row_chars member here).1

set_option maxRecDepth 4000 in
/-- The place of the full-width hyphen in its row. -/
theorem getElem?_hyphen : row81.toList[60]? = some '－' := by
  obtain ⟨cs, same, here⟩ : ∃ cs, row81 = String.ofList cs ∧ cs[60]? = some '－' := ⟨_, rfl, rfl⟩
  rw [same, String.toList_ofList]
  exact here

/-- The full-width hyphen has the code that the minus sign shares. -/
theorem code?_hyphen : code? '－' = some (0x81, 0x7C) := by
  have trail : trails[60]? = some 0x7C := by
    decide
  have listed : ('－', 0x81, 0x7C) ∈ spellings :=
    mem_spellings_iff.mpr ⟨row81, List.mem_cons_self, 60, trail, getElem?_hyphen, by decide,
      by decide⟩
  obtain ⟨⟨lead', trail'⟩, found⟩ := exists_code? listed
  obtain ⟨row, member, i, placed, here, _⟩ := mem_spellings_iff.mp (mem_spellings found)
  -- The character stands nowhere else in the table.
  obtain ⟨rfl, rfl⟩ : lead' = 0x81 ∧ i = 60 := (row_chars member here).2 rfl
  obtain rfl := Option.some.inj (placed.symm.trans trail)
  exact found

end DoubleByte

/-! ### CP932 -/

/-- What a character is read back as, once it was written. -/
def rereadChar : Encoding → Char → Char
  | utf8, c => c
  | cp932, c =>
    if c = '¥' then '\\' else if c = '‾' then '~' else if c = '−' then '－' else c

/-- What a text is read back as, once it was written. -/
def reread (e : Encoding) (s : String) : String :=
  String.ofList (s.toList.map e.rereadChar)

variable {e : Encoding} {c : Char} {cs : List Char} {s : String} {bytes : List UInt8}

theorem cp932Char_reread (c : Char) : cp932Char (rereadChar cp932 c) = cp932Char c := by
  rw [rereadChar]
  split_ifs with yen overline minus
  · rw [yen, cp932Char, cp932Char, if_pos (by decide), if_neg (by decide), if_neg (by decide),
      if_pos (by decide)]
    rfl
  · rw [overline, cp932Char, cp932Char, if_pos (by decide), if_neg (by decide), if_neg (by decide),
      if_neg (by decide), if_pos (by decide)]
    rfl
  · rw [minus, cp932Char, cp932Char, if_neg (by decide), if_neg (by decide), if_neg (by decide),
      if_neg (by decide), if_neg (by decide), DoubleByte.code?_hyphen, if_neg (by decide),
      if_neg (by decide), if_neg (by decide), if_neg (by decide), if_pos (by decide)]
    rfl
  · rfl

/-- CP932 has no characters beyond the basic plane. -/
theorem encodeChar_of_beyond (beyond : 0x10000 ≤ c.toNat) : cp932.encodeChar c = none := by
  rw [encodeChar, cp932Char, if_neg (by omega), if_neg (by omega), if_neg (by omega),
    if_neg (by omega), if_neg (by omega), DoubleByte.code?_of_beyond beyond, Option.map_none]

theorem encodeChar_reread (e : Encoding) (c : Char) :
    e.encodeChar (e.rereadChar c) = e.encodeChar c := by
  cases e with
  | utf8 => rfl
  | cp932 => exact cp932Char_reread c

theorem cp932Chars_single {b : UInt8} (single : singleByte? b = some c) (rest : List UInt8) :
    cp932Chars (b :: rest) = (cp932Chars rest).map (c :: ·) := by
  rw [cp932Chars.eq_def]
  simp only [single]

theorem cp932Chars_pair {lead trail : UInt8} (leads : isLead lead = true)
    (notSingle : singleByte? lead = none) (spelled : DoubleByte.pair lead trail = .char c)
    (rest : List UInt8) :
    cp932Chars (lead :: trail :: rest) = (cp932Chars rest).map (c :: ·) := by
  rw [cp932Chars.eq_def]
  simp only [notSingle, leads, spelled, if_true]

theorem rereadChar_of_ne (yen : c.toNat ≠ 0xA5) (overline : c.toNat ≠ 0x203E)
    (minus : c.toNat ≠ 0x2212) : rereadChar cp932 c = c := by
  rw [rereadChar, if_neg, if_neg, if_neg]
  · rintro rfl
    exact minus rfl
  · rintro rfl
    exact overline rfl
  · rintro rfl
    exact yen rfl

/-- The bytes of a character are read back as its look-alike, whatever follows. -/
theorem cp932Chars_char (written : cp932Char c = some bytes) (rest : List UInt8) :
    cp932Chars (bytes ++ rest) = (cp932Chars rest).map (rereadChar cp932 c :: ·) := by
  simp only [cp932Char] at written
  split_ifs at written with low kana yen overline minus
  · -- The first code points are their own bytes.
    cases written
    have small : (UInt8.ofNat c.toNat).toNat = c.toNat := UInt8.toNat_ofNat_of_lt' (by
      rw [show UInt8.size = 256 from rfl]
      omega)
    have single : singleByte? (UInt8.ofNat c.toNat) = some c := by
      rw [singleByte?, if_pos, small, Char.ofNat_toNat]
      rw [UInt8.le_iff_toNat_le, small]
      exact low
    rw [rereadChar_of_ne (by omega) (by omega) (by omega), List.singleton_append,
      cp932Chars_single single]
  · -- Half-width katakana lie in one range of bytes.
    cases written
    have small : (UInt8.ofNat (c.toNat - 0xFF61 + 0xA1)).toNat = c.toNat - 0xFF61 + 0xA1 :=
      UInt8.toNat_ofNat_of_lt' (by
        rw [show UInt8.size = 256 from rfl]
        omega)
    have single : singleByte? (UInt8.ofNat (c.toNat - 0xFF61 + 0xA1)) = some c := by
      rw [singleByte?, if_neg, if_pos, small, Nat.add_sub_cancel, Nat.sub_add_cancel kana.1,
        Char.ofNat_toNat]
      · rw [UInt8.le_iff_toNat_le, UInt8.le_iff_toNat_le, small]
        change 161 ≤ _ ∧ _ ≤ 223
        omega
      · rw [UInt8.le_iff_toNat_le, small]
        change ¬_ ≤ 128
        omega
    rw [rereadChar_of_ne (by omega) (by omega) (by omega), List.singleton_append,
      cp932Chars_single single]
  · obtain rfl : c = '¥' := Char.toNat_inj.mp yen
    cases written
    exact cp932Chars_single rfl rest
  · obtain rfl : c = '‾' := Char.toNat_inj.mp overline
    cases written
    exact cp932Chars_single rfl rest
  · obtain rfl : c = '−' := Char.toNat_inj.mp minus
    cases written
    obtain ⟨leads, notSingle, spelled⟩ := DoubleByte.pair_of_code? DoubleByte.code?_hyphen
    exact cp932Chars_pair leads notSingle spelled rest
  · obtain ⟨⟨lead, trail⟩, code, rfl⟩ := Option.map_eq_some_iff.mp written
    obtain ⟨leads, notSingle, spelled⟩ := DoubleByte.pair_of_code? code
    rw [rereadChar_of_ne yen overline minus]
    exact cp932Chars_pair leads notSingle spelled rest

theorem cp932Chars_of_encode (written : cp932.encodeChars cs = .ok bytes) :
    cp932Chars bytes = some (cs.map (rereadChar cp932)) := by
  induction cs generalizing bytes with
  | nil =>
    cases written
    rfl
  | cons c cs ih =>
    rw [encodeChars] at written
    split at written
    · cases written
    · next first found =>
      simp only [bind_eq_ok, pure_eq_ok] at written
      obtain ⟨rest, written, rfl⟩ := written
      rw [cp932Chars_char found, ih written]
      rfl

/-! ### Both encodings -/

theorem encodeChars_reread (written : e.encodeChars cs = .ok bytes) :
    e.encodeChars (cs.map e.rereadChar) = .ok bytes := by
  induction cs generalizing bytes with
  | nil => exact written
  | cons c cs ih =>
    rw [encodeChars] at written
    rw [List.map_cons, encodeChars, encodeChar_reread]
    split at written
    · cases written
    · next first found =>
      simp only [bind_eq_ok, pure_eq_ok] at written
      obtain ⟨rest, written, rfl⟩ := written
      simp only [ih written, bind_eq_ok, pure_eq_ok]
      exact ⟨rest, rfl, rfl⟩

/-- What is read back is written with the same bytes. -/
theorem encode_reread (written : e.encode s = .ok bytes) : e.encode (e.reread s) = .ok bytes := by
  rw [encode, reread, String.toList_ofList]
  exact encodeChars_reread written

@[simp] theorem reread_utf8 (s : String) : utf8.reread s = s := by
  have same : s.toList.map (rereadChar utf8) = s.toList := List.map_id _
  rw [reread, same, String.ofList_toList]

/-- What was written is read back, up to look-alikes. -/
theorem decode_of_encode (written : e.encode s = .ok bytes) :
    e.decode bytes = .ok (e.reread s) := by
  cases e with
  | utf8 =>
    rw [encode, encodeChars_utf8] at written
    obtain rfl := Except.ok.inj written
    have bytes_eq : ByteArray.mk (s.toList.flatMap String.utf8EncodeChar).toArray =
        s.toByteArray := by
      rw [← String.utf8Encode_toList]
      apply ByteArray.ext
      apply Array.toList_inj.mp
      rw [List.utf8Encode, List.toList_data_toByteArray]
    have valid : String.fromUTF8? s.toByteArray = some s := by
      rw [String.fromUTF8?, dif_pos s.isValidUTF8]
      rfl
    rw [decode, bytes_eq, valid, reread_utf8]
  | cp932 =>
    rw [decode, cp932Chars_of_encode written]
    have again := encodeChars_reread written
    simp only [again, Except.toOption, if_true]
    rfl

/-- A text that can be written is read back as one that survives. -/
theorem survives_reread (written : e.encode s = .ok bytes) : e.Survives (e.reread s) :=
  ⟨bytes, encode_reread written, decode_of_encode written⟩

end NovelChart.Encoding
