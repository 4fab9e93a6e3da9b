import Mathlib.Tactic.SplitIfs
import NovelChart.Error
import NovelChart.Proofs.Format

/-!
# Strict text encodings

Decoding is strict: a byte string is accepted only if its text is written with the same bytes. A
text *survives* an encoding when it can be written and its bytes are read back as the same text;
every decoded text does.

## Main results

* `Encoding.encode_of_decode`: a decoded text is written with the bytes that it was read from
* `Encoding.encode_singleton`: a text of one character is written as that character
-/

namespace NovelChart.Encoding

variable {e : Encoding} {bytes : List UInt8} {s : String} {c : Char}

/-- The text can be written, and what was written is read back as the same text. -/
def Survives (e : Encoding) (s : String) : Prop :=
  ∃ bytes, e.encode s = .ok bytes ∧ e.decode bytes = .ok s

theorem write_eq_ok : e.write s = .ok bytes ↔ e.encode s = .ok bytes :=
  mapError_eq_ok

/-- UTF-8 writes every list of characters. -/
theorem encodeChars_utf8 (cs : List Char) :
    utf8.encodeChars cs = .ok (cs.flatMap String.utf8EncodeChar) := by
  induction cs with
  | nil => rfl
  | cons c cs ih => simp [encodeChars, encodeChar, ih, bind, Except.bind, pure, Except.pure]

/-- A decoded text is written with the bytes that it was read from. -/
theorem encode_of_decode (decoded : e.decode bytes = .ok s) : e.encode s = .ok bytes := by
  cases e with
  | utf8 =>
    simp only [decode, String.fromUTF8?] at decoded
    split at decoded
    · cases decoded
    · next read =>
      cases decoded
      obtain ⟨valid, eq⟩ := Option.dite_none_right_eq_some.mp read
      obtain rfl := Option.some.inj eq
      -- A string is the UTF-8 encoding of its characters, so the two byte lists agree.
      have same : List.utf8Encode (String.fromUTF8 ⟨bytes.toArray⟩ valid).toList =
          ⟨bytes.toArray⟩ := String.utf8Encode_toList
      have data := congrArg (fun a => a.data.toList) same
      simp only [List.utf8Encode, List.toList_data_toByteArray] at data
      rw [encode, encodeChars_utf8, data]
  | cp932 =>
    simp only [decode] at decoded
    split at decoded
    · cases decoded
    · next cs _ =>
      split at decoded
      · next written =>
        -- The decoder itself checks that the text is written with these bytes.
        cases decoded
        rw [encode, String.toList_ofList]
        cases outcome : cp932.encodeChars cs with
        | error f => simp [outcome, Except.toOption] at written
        | ok out =>
          rw [outcome] at written
          exact congrArg Except.ok (Option.some.inj written)
      · cases decoded

/-- Every decoded text survives. -/
theorem survives_of_decode (decoded : e.decode bytes = .ok s) : e.Survives s :=
  ⟨bytes, encode_of_decode decoded, decoded⟩

/-- The bytes of a surviving text are read back. -/
theorem Survives.decode (survives : e.Survives s) (written : e.encode s = .ok bytes) :
    e.decode bytes = .ok s := by
  obtain ⟨bytes', written', decoded⟩ := survives
  cases written.symm.trans written'
  exact decoded

/-- The bytes of a surviving text stand for it. -/
theorem spelled_of_write (written : e.write s = .ok bytes) (survives : e.Survives s)
    (small : (Bytes.counted bytes).length < 2 ^ 32) : e.Spelled (Bytes.counted bytes) s := by
  refine ⟨bytes, ?_, rfl, survives.decode (write_eq_ok.mp written)⟩
  rw [Bytes.length_counted] at small
  omega

/-- A text of one character is written as that character. -/
theorem encode_singleton :
    e.encode (String.singleton c) = .ok bytes ↔ e.encodeChar c = some bytes := by
  rw [encode, String.toList_singleton, encodeChars]
  cases e.encodeChar c with
  | none => simp
  | some out => simp [encodeChars, bind, Except.bind, pure, Except.pure]

/-- A character takes between one and four bytes. -/
theorem length_encodeChar (written : e.encodeChar c = some bytes) :
    0 < bytes.length ∧ bytes.length ≤ 4 := by
  cases e with
  | utf8 =>
    cases written
    rw [String.length_utf8EncodeChar]
    exact ⟨c.utf8Size_pos, c.utf8Size_le_four⟩
  | cp932 =>
    simp only [encodeChar, cp932Char] at written
    split_ifs at written
    case neg =>
      obtain ⟨_, _, rfl⟩ := Option.map_eq_some_iff.mp written
      simp
    all_goals
      cases written
      simp

end NovelChart.Encoding
