import NovelChart.Markup.Tag

/-!
# Letter case and decimal numerals

Two facts about spelling that the tag table relies on. Comparing without regard to case is an
equivalence, and writing a name in upper case stays within its class. A signed number written in
decimal is read back as the same number, also with blanks around it.

## Main results

* `Text.sameLetters_upper`: upper case does not change the letters
* `Text.readInt32_int32`: a written number is read back
* `AttrSpec.int?_int32`: the same for an attribute value
-/

namespace NovelChart.Text

/-! ### Letter case -/

variable {a b c : String}

theorem sameLetters_iff :
    sameLetters a b = true ↔ a.toList.map Char.toLower = b.toList.map Char.toLower := by
  simp [sameLetters]

/-- Texts with the same letters have the same letters as any third text. -/
theorem sameLetters_congr (same : sameLetters a b = true) (c : String) :
    sameLetters c a = sameLetters c b := by
  rw [Bool.eq_iff_iff, sameLetters_iff, sameLetters_iff, sameLetters_iff.mp same]

/-- The letters of a text are letters in every other spelling. -/
theorem isLower_of_sameLetters (same : sameLetters a b = true)
    (letters : ∀ x ∈ a.toList, x.toLower.isLower = true) {x : Char} (member : x ∈ b.toList) :
    x.toLower.isLower = true := by
  have inside : x.toLower ∈ a.toList.map Char.toLower := by
    rw [sameLetters_iff.mp same]
    exact List.mem_map_of_mem member
  obtain ⟨y, among, lower⟩ := List.mem_map.mp inside
  rw [← lower]
  exact letters y among

theorem toNat_toLower (x : Char) :
    x.toLower.toNat = if 65 ≤ x.toNat ∧ x.toNat ≤ 90 then x.toNat + 32 else x.toNat := by
  have shift : ('a'.val - 'A'.val).toNat = 32 := by decide
  delta Char.toLower
  simp only [ge_iff_le, UInt32.le_iff_toNat_le, Char.toNat]
  simp only [show 'A'.val.toNat = 65 by decide, show 'Z'.val.toNat = 90 by decide]
  split
  · next big =>
    simp only [UInt32.toNat_add, shift]
    omega
  · rfl

theorem toNat_toUpper (x : Char) :
    x.toUpper.toNat = if 97 ≤ x.toNat ∧ x.toNat ≤ 122 then x.toNat - 32 else x.toNat := by
  -- The way from lower to upper case goes down, so the difference wraps around.
  have shift : ('A'.val - 'a'.val).toNat = 2 ^ 32 - 32 := by decide
  delta Char.toUpper
  simp only [UInt32.le_iff_toNat_le, Char.toNat]
  simp only [show 'a'.val.toNat = 97 by decide, show 'z'.val.toNat = 122 by decide]
  split
  · next small =>
    simp only [UInt32.toNat_add, shift]
    omega
  · rfl

theorem toLower_toUpper (x : Char) : x.toUpper.toLower = x.toLower := by
  apply Char.toNat_inj.mp
  simp only [toNat_toLower, toNat_toUpper]
  grind

theorem toUpper_toLower (x : Char) : x.toLower.toUpper = x.toUpper := by
  apply Char.toNat_inj.mp
  simp only [toNat_toLower, toNat_toUpper]
  grind

/-- Upper case does not change the letters. -/
theorem sameLetters_upper (a : String) : sameLetters (upper a) a = true := by
  rw [sameLetters_iff, upper, String.toList_ofList, List.map_map]
  exact List.map_congr_left fun x _ => toLower_toUpper x

/-- Texts with the same letters have the same upper case. -/
theorem upper_congr (same : sameLetters a b = true) : upper a = upper b := by
  have lists := congrArg (List.map Char.toUpper) (sameLetters_iff.mp same)
  simp only [List.map_map, Function.comp_def, toUpper_toLower] at lists
  rw [upper, upper, lists]

/-! ### Blanks -/

/-- The printable characters of ASCII are no blanks. -/
theorem not_isBlank_of_range {x : Char} (low : 33 ≤ x.toNat) (high : x.toNat ≤ 126) :
    isBlank x = false := by
  simp only [isBlank, Bool.or_eq_false_iff, Bool.and_eq_false_iff, decide_eq_false_iff_not,
    beq_eq_false_iff_ne]
  omega

/-- A character that is not of a class is not dropped with the class. -/
theorem mem_dropWhile {p : Char → Bool} {x : Char} {cs : List Char} (member : x ∈ cs)
    (other : p x = false) : x ∈ cs.dropWhile p := by
  rw [← List.takeWhile_append_dropWhile (p := p) (l := cs)] at member
  rcases List.mem_append.mp member with taken | rest
  · rw [List.all_eq_true.mp List.all_takeWhile x taken] at other
    cases other
  · exact rest

theorem dropBlanks_eq_self {cs : List Char} (dense : ∀ x ∈ cs.head?, isBlank x = false) :
    dropBlanks cs = cs := by
  cases cs with
  | nil => rfl
  | cons x cs =>
    have blank : ¬isBlank x = true := by simp [dense x rfl]
    rw [dropBlanks, List.dropWhile_cons_of_neg blank]

theorem trim_eq_self {cs : List Char} (dense : ∀ x ∈ cs, isBlank x = false) : trim cs = cs := by
  have front : dropBlanks cs = cs :=
    dropBlanks_eq_self fun x first => dense x (List.mem_of_mem_head? first)
  -- Blanks at the end are those at the front of the reversed text.
  have back : dropBlanks cs.reverse = cs.reverse :=
    dropBlanks_eq_self fun x first =>
      dense x (List.mem_reverse.mp (List.mem_of_mem_head? first))
  rw [dropBlanks] at back
  rw [trim, front, dropBlanksEnd, back, List.reverse_reverse]

theorem dropBlanksEnd_concat (cs : List Char) (c : Char) :
    dropBlanksEnd (cs ++ [c]) = if isBlank c then dropBlanksEnd cs else cs ++ [c] := by
  rw [dropBlanksEnd, List.reverse_append, List.reverse_singleton, List.singleton_append,
    List.dropWhile_cons]
  split
  · rfl
  · rw [List.reverse_cons, List.reverse_reverse]

theorem toNat_of_isDigit {x : Char} (digit : x.isDigit = true) :
    48 ≤ x.toNat ∧ x.toNat ≤ 57 := by
  simpa [Char.isDigit, UInt32.le_iff_toNat_le] using digit

theorem not_isBlank_of_isDigit {x : Char} (digit : x.isDigit = true) : isBlank x = false := by
  have bounds := toNat_of_isDigit digit
  exact not_isBlank_of_range (by omega) (by omega)

/-! ### Decimal numerals -/

/-- Digits are read as the number that they denote, as long as it stays below the limit. -/
theorem readDigits_eq {limit : Nat} {cs : List Char} {value : Nat}
    (digits : ∀ x ∈ cs, x.isDigit = true) (below : Nat.ofDigitChars 10 cs value < limit) :
    readDigits limit value cs = .ok (Nat.ofDigitChars 10 cs value) := by
  induction cs generalizing value with
  | nil => simp [readDigits]
  | cons x cs ih =>
    rw [Nat.ofDigitChars_cons] at below ⊢
    -- Reading on never makes the value smaller, so the limit holds at every digit.
    have grows : 10 * value + (x.toNat - '0'.toNat) ≤
        Nat.ofDigitChars 10 cs (10 * value + (x.toNat - '0'.toNat)) := by
      rw [Nat.ofDigitChars_eq_ofDigitChars_zero]
      have power : 0 < 10 ^ cs.length := Nat.pow_pos (by decide)
      have scaled := Nat.le_mul_of_pos_left (10 * value + (x.toNat - '0'.toNat)) power
      omega
    rw [readDigits, digit?, if_pos (digits x List.mem_cons_self)]
    simp only [Nat.mul_comm value 10]
    rw [if_pos (by omega)]
    exact ih (fun x member => digits x (List.mem_cons_of_mem _ member)) below

/-- Nothing but digits is read. -/
theorem isDigit_of_readDigits {limit value n : Nat} {cs : List Char}
    (read : readDigits limit value cs = .ok n) :
    ∀ c ∈ cs, c.isDigit = true := by
  induction cs generalizing value with
  | nil => exact List.forall_mem_nil _
  | cons c cs ih =>
    rw [readDigits, digit?] at read
    split at read
    · cases read
    · next d found =>
      obtain ⟨digit, _⟩ := Option.ite_none_right_eq_some.mp found
      split at read
      · exact List.forall_mem_cons.mpr ⟨digit, ih read⟩
      · cases read

/-- What is read is the number that the digits denote, and it stays below the limit. -/
theorem ofDigitChars_of_readDigits {limit value n : Nat} {cs : List Char} (small : value < limit)
    (read : readDigits limit value cs = .ok n) : Nat.ofDigitChars 10 cs value = n ∧ n < limit := by
  induction cs generalizing value with
  | nil =>
    cases read
    exact ⟨Nat.ofDigitChars_nil, small⟩
  | cons c cs ih =>
    rw [readDigits, digit?] at read
    split at read
    · cases read
    · next d found =>
      obtain ⟨_, same⟩ := Option.ite_none_right_eq_some.mp found
      cases same
      split at read
      · next below =>
        rw [Nat.ofDigitChars_cons, Nat.mul_comm 10 value]
        exact ih below read
      · cases read

theorem readDigits_toDigits {limit n : Nat} (below : n < limit) :
    readDigits limit 0 (Nat.toDigits 10 n) = .ok n := by
  have digits : ∀ x ∈ Nat.toDigits 10 n, x.isDigit = true := fun x member =>
    Nat.isDigit_of_mem_toDigits (by decide) (by decide) member
  have value : Nat.ofDigitChars 10 (Nat.toDigits 10 n) 0 = n := Nat.ofDigitChars_ten_toDigits
  rw [readDigits_eq digits (by rwa [value]), value]

theorem toList_int32 (n : Int32) :
    (int32 n).toList = if 0 ≤ n.toInt then Nat.toDigits 10 n.toInt.toNat
      else '-' :: Nat.toDigits 10 (-n.toInt).toNat := by
  rw [int32, Int.toString_eq_repr, Int.repr_eq_if]
  split
  · rw [Nat.toList_repr]
  · rw [String.toList_append, Nat.toList_repr]
    rfl

/-- A number written in decimal holds no blank. -/
theorem not_isBlank_int32 (n : Int32) : ∀ x ∈ (int32 n).toList, isBlank x = false := by
  intro x member
  have digits : ∀ m, x ∈ Nat.toDigits 10 m → isBlank x = false := fun m member =>
    not_isBlank_of_isDigit (Nat.isDigit_of_mem_toDigits (by decide) (by decide) member)
  rw [toList_int32] at member
  split at member
  · exact digits _ member
  · rcases List.mem_cons.mp member with rfl | member
    · decide
    · exact digits _ member

/-- A number written in decimal is read back. -/
theorem readInt32_int32 (n : Int32) : readInt32 (int32 n).toList = some n := by
  have low := Int32.le_toInt n
  have high := Int32.toInt_lt n
  rw [toList_int32]
  split
  · next nonneg =>
    have read : readDigits 0x80000000 0 (Nat.toDigits 10 n.toInt.toNat) = .ok n.toInt.toNat :=
      readDigits_toDigits (by omega)
    cases eq : Nat.toDigits 10 n.toInt.toNat with
    | nil => exact absurd eq Nat.toDigits_ne_nil
    | cons x xs =>
      -- The first character is a digit, so that no sign is taken off.
      have member : x ∈ Nat.toDigits 10 n.toInt.toNat := eq ▸ List.mem_cons_self
      have bounds := toNat_of_isDigit (Nat.isDigit_of_mem_toDigits (by decide) (by decide) member)
      have minus : x ≠ '-' := by rintro rfl; simp at bounds
      have plus : x ≠ '+' := by rintro rfl; simp at bounds
      rw [eq] at read
      have value : ((n.toInt.toNat : Nat) : Int) = n.toInt := Int.toNat_of_nonneg nonneg
      generalize n.toInt.toNat = m at read value
      simp [readInt32, readNat, minus, plus, read, value]
  · next negative =>
    -- Behind a minus sign the limit is one higher, which leaves room for the least number.
    have read : readDigits 0x80000001 0 (Nat.toDigits 10 (-n.toInt).toNat) =
        .ok (-n.toInt).toNat := readDigits_toDigits (by omega)
    have value : -(((-n.toInt).toNat : Nat) : Int) = n.toInt := by omega
    cases eq : Nat.toDigits 10 (-n.toInt).toNat with
    | nil => exact absurd eq Nat.toDigits_ne_nil
    | cons x xs =>
      rw [eq] at read
      simp only [readInt32, read, value, Int32.ofInt_toInt]

/-! ### Three digits -/

/-- A number below a thousand is padded to its three decimal digits. -/
theorem threeDigits_eq {n : Nat} (small : n < 1000) :
    threeDigits n =
      [Nat.digitChar (n / 100), Nat.digitChar (n / 10 % 10), Nat.digitChar (n % 10)] := by
  rw [threeDigits]
  -- There are one, two or three digits, and the padding fills up what is missing.
  rcases Nat.lt_or_ge n 10 with one | two
  · rw [Nat.toDigits_of_lt_base one, Nat.div_eq_of_lt (by omega), Nat.div_eq_of_lt one,
      Nat.mod_eq_of_lt one]
    rfl
  · rw [Nat.toDigits_of_base_le (by decide) two]
    rcases Nat.lt_or_ge (n / 10) 10 with one | three
    · have hundreds : n / 100 = 0 := by omega
      rw [Nat.toDigits_of_lt_base one, Nat.mod_eq_of_lt one, hundreds]
      rfl
    · rw [Nat.toDigits_of_base_le (by decide) three, Nat.toDigits_of_lt_base (by omega),
        Nat.div_div_eq_div_mul]
      rfl

end NovelChart.Text

namespace NovelChart.AttrSpec

/-- An integer attribute in canonical spelling denotes its number. -/
theorem int?_int32 (n : Int32) : int? (Text.int32 n) = some n := by
  rw [int?, Text.trim_eq_self (Text.not_isBlank_int32 n), Text.readInt32_int32]

end NovelChart.AttrSpec
