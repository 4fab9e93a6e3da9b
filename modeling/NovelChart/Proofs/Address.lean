import Mathlib.Data.List.DropRight
import NovelChart.Command.Field
import NovelChart.Proofs.Format
import NovelChart.Proofs.Numeral
import NovelChart.Proofs.Path
import NovelChart.Segment.Id
import NovelChart.Tool.Reference

/-!
# Addresses that are written and read back

The tool hands out addresses as text and takes them back: the lines of an index, the identifiers of
segments, the names of parameters in a group. Each of them ends with a number behind a mark that no
number holds, so it can be taken apart from its end whatever stands in front, marks included. Only a
line feed in a file name would tear a line of an index apart.

Reading is more lenient than writing. A number may have a plus sign and zeros in front, and the
number of a reference may stand between blanks. The forms that are accepted are stated on their own,
each reader accepts exactly its form, and what is written is a case of it.

## Main definitions

* `Text.IsPosition`: the numerals of a position
* `Text.Padded`: a text between blanks
* `Reference.Spelled`, `TextId.Spelled`: the texts that stand for a reference or an identifier

## Main results

* `Text.readPosition_eq_ok`, `Reference.ofText_eq_ok`, `TextId.ofText_eq_ok`: what is read
* `Text.splitLast?_eq_some`, `Text.last_unique`: a text is cut at its last mark and nowhere else
* `Reference.indexEntries_indexText`: the lines of an index are its references
* `TextId.text_injective`: different identifiers have different texts
* `identifiers_read_back`: identifiers and references are read back, whatever their names are
* `Field.splitName?_nameInGroup`: a name in a group is taken apart
-/

namespace NovelChart

/-! ### Positions -/

namespace Text

theorem isDigit_toString {n : Nat} {x : Char} (member : x ∈ (toString n).toList) :
    x.isDigit = true := by
  rw [Nat.toString_eq_repr, Nat.toList_repr] at member
  exact Nat.isDigit_of_mem_toDigits (by decide) (by decide) member

theorem not_mem_toString {n : Nat} {x : Char} (other : x.isDigit = false) :
    x ∉ (toString n).toList := by
  intro member
  rw [isDigit_toString member] at other
  cases other

theorem toString_ne_nil (n : Nat) : (toString n).toList ≠ [] := by
  rw [Nat.toString_eq_repr, Nat.toList_repr]
  exact Nat.toDigits_ne_nil

theorem trim_toString (n : Nat) : trim (toString n).toList = (toString n).toList :=
  trim_eq_self fun _ member => not_isBlank_of_isDigit (isDigit_toString member)

/-- The characters are the decimal digits of a position. Zeros may stand in front. -/
structure IsDecimal (cs : List Char) (n : Nat) : Prop where
  filled : cs ≠ []
  digits : ∀ x ∈ cs, x.isDigit = true
  value : Nat.ofDigitChars 10 cs 0 = n
  small : n < positionLimit

/-- The characters are a numeral of a position: its digits, behind at most one plus sign. -/
inductive IsPosition : List Char → Nat → Prop
  | plain {cs : List Char} {n : Nat} : IsDecimal cs n → IsPosition cs n
  | signed {cs : List Char} {n : Nat} : IsDecimal cs n → IsPosition ('+' :: cs) n

section

variable {cs : List Char} {n : Nat}

/-- A numeral holds digits, and a plus sign at most. -/
theorem IsPosition.mem {x : Char} (numeral : IsPosition cs n) (member : x ∈ cs) :
    x.isDigit = true ∨ x = '+' := by
  cases numeral with
  | plain decimal => exact .inl (decimal.digits x member)
  | signed decimal =>
    rcases List.mem_cons.mp member with rfl | inside
    · exact .inr rfl
    · exact .inl (decimal.digits x inside)

theorem IsPosition.dense (numeral : IsPosition cs n) : ∀ x ∈ cs, isBlank x = false := by
  intro x member
  rcases numeral.mem member with digit | rfl
  · exact not_isBlank_of_isDigit digit
  · decide

theorem IsPosition.not_mem_colon (numeral : IsPosition cs n) : ':' ∉ cs := by
  intro member
  rcases numeral.mem member with digit | plus
  · exact absurd digit (by decide)
  · exact absurd plus (by decide)

theorem IsPosition.small (numeral : IsPosition cs n) : n < positionLimit := by
  cases numeral with
  | plain decimal => exact decimal.small
  | signed decimal => exact decimal.small

theorem readDigits_eq_ok (filled : cs ≠ []) :
    readDigits positionLimit 0 cs = .ok n ↔ IsDecimal cs n := by
  constructor
  · intro read
    obtain ⟨value, small⟩ := ofDigitChars_of_readDigits (by decide) read
    exact ⟨filled, isDigit_of_readDigits read, value, small⟩
  · rintro ⟨_, digits, rfl, small⟩
    exact readDigits_eq digits small

/-- Exactly the numerals of a position are read as it. -/
theorem readPosition_eq_ok : readPosition cs = .ok n ↔ IsPosition cs n := by
  rw [readPosition]
  constructor
  · intro read
    unfold readNat at read
    split at read
    · cases read
    · cases read
    · next filled => exact .signed ((readDigits_eq_ok filled).mp read)
    · next filled _ _ => exact .plain ((readDigits_eq_ok filled).mp read)
  · intro numeral
    cases numeral with
    | plain decimal =>
      have read := (readDigits_eq_ok decimal.filled).mpr decimal
      obtain ⟨c, cs, rfl⟩ := List.exists_cons_of_ne_nil decimal.filled
      -- The first character is a digit, so that no sign is taken off.
      have plus : c ≠ '+' := by
        rintro rfl
        exact absurd (decimal.digits '+' List.mem_cons_self) (by decide)
      simp [readNat, plus, read]
    | signed decimal =>
      have read := (readDigits_eq_ok decimal.filled).mpr decimal
      obtain ⟨c, cs, rfl⟩ := List.exists_cons_of_ne_nil decimal.filled
      exact read

end

theorem toOption_readPosition {cs : List Char} {n : Nat} :
    (readPosition cs).toOption = some n ↔ IsPosition cs n := by
  rw [← readPosition_eq_ok]
  cases readPosition cs <;> simp [Except.toOption]

/-- A position in decimal is a numeral of itself. -/
theorem isPosition_toString {n : Nat} (small : n < positionLimit) :
    IsPosition (toString n).toList n := by
  refine .plain ⟨toString_ne_nil n, fun x member => isDigit_toString member, ?_, small⟩
  rw [Nat.toString_eq_repr, Nat.toList_repr]
  exact Nat.ofDigitChars_ten_toDigits

/-- A position is read back. -/
theorem readPosition_toString {n : Nat} (small : n < positionLimit) :
    readPosition (toString n).toList = .ok n :=
  readPosition_eq_ok.mpr (isPosition_toString small)

theorem toString_injective {m n : Nat} (same : (toString m).toList = (toString n).toList) :
    m = n := by
  rw [Nat.toString_eq_repr, Nat.toString_eq_repr, Nat.toList_repr, Nat.toList_repr] at same
  calc
    m = Nat.ofDigitChars 10 (Nat.toDigits 10 m) 0 := Nat.ofDigitChars_ten_toDigits.symm
    _ = Nat.ofDigitChars 10 (Nat.toDigits 10 n) 0 := by rw [same]
    _ = n := Nat.ofDigitChars_ten_toDigits

/-! ### Taking texts apart -/

variable {mark : Char} {cs front back : List Char}

/-- A text is cut at its last mark. -/
theorem splitLast?_append (absent : mark ∉ back) :
    splitLast? mark (front ++ mark :: back) = some (front, back) := by
  have behind : ((front ++ mark :: back).reverse.takeWhile (· != mark)).reverse = back := by
    have dense : ∀ x ∈ back.reverse, (x != mark) = true := by
      intro x member
      rw [bne_iff_ne]
      rintro rfl
      exact absent (List.mem_reverse.mp member)
    rw [List.reverse_append, List.reverse_cons, List.append_assoc, List.singleton_append,
      List.takeWhile_append_of_pos dense, List.takeWhile_cons_of_neg (by simp), List.append_nil,
      List.reverse_reverse]
  have cut : (front ++ mark :: back).take ((front ++ mark :: back).length - back.length) =
      front ++ [mark] := by
    have length : (front ++ mark :: back).length - back.length = (front ++ [mark]).length := by
      simp only [List.length_append, List.length_cons, List.length_nil]
      omega
    rw [length, List.append_cons front mark back, List.take_left]
  rw [splitLast?, behind, cut]
  split
  · next empty => exact absurd empty (by simp)
  · rw [List.dropLast_concat]

theorem splitLast?_eq_none (absent : mark ∉ cs) : splitLast? mark cs = none := by
  have behind : (cs.reverse.takeWhile (· != mark)).reverse = cs := by
    refine List.rtakeWhile_eq_self_iff.mpr fun x member => ?_
    rw [bne_iff_ne]
    rintro rfl
    exact absent member
  rw [splitLast?, behind, Nat.sub_self, List.take_zero]

/-- A text that holds the mark can be cut at the last one. -/
theorem exists_last (member : mark ∈ cs) :
    ∃ front back, cs = front ++ mark :: back ∧ mark ∉ back := by
  -- The last mark is the first one of the reversed text.
  obtain ⟨after, before, turned, absent⟩ := List.eq_append_cons_of_mem (List.mem_reverse.mpr member)
  refine ⟨before.reverse, after.reverse, ?_, fun inside => absent (List.mem_reverse.mp inside)⟩
  rw [← cs.reverse_reverse, turned]
  simp

/-- A text is cut at its last mark and nowhere else. -/
theorem splitLast?_eq_some :
    splitLast? mark cs = some (front, back) ↔ cs = front ++ mark :: back ∧ mark ∉ back := by
  constructor
  · intro cut
    by_cases member : mark ∈ cs
    · obtain ⟨_, _, parts, absent⟩ := exists_last member
      rw [parts, splitLast?_append absent] at cut
      cases cut
      exact ⟨parts, absent⟩
    · rw [splitLast?_eq_none member] at cut
      cases cut
  · rintro ⟨rfl, absent⟩
    exact splitLast?_append absent

/-- What stands in front of the last mark cannot reach behind it, whatever it looks like. -/
theorem last_unique {front' back' : List Char} (absent : mark ∉ back) (absent' : mark ∉ back')
    (same : front ++ mark :: back = front' ++ mark :: back') : front = front' ∧ back = back' := by
  have cut := congrArg (splitLast? mark) same
  rw [splitLast?_append absent, splitLast?_append absent'] at cut
  exact Prod.mk.inj (Option.some.inj cut)

/-- An opening is dropped from exactly the texts that begin with it. -/
theorem dropOpening?_eq_some {opening rest : List Char} :
    dropOpening? opening cs = some rest ↔ cs = opening ++ rest := by
  fun_induction dropOpening? opening cs with
  | case1 => exact Option.some_inj
  | case2 => simp
  | case3 _ _ _ ih => simp [ih]
  | case4 _ _ _ _ differs => simp [Ne.symm differs]

/-! ### Blanks around a text -/

/-- The text stands between blanks, if there are any. -/
def Padded (inner cs : List Char) : Prop :=
  ∃ before behind, (∀ x ∈ before, isBlank x = true) ∧ (∀ x ∈ behind, isBlank x = true) ∧
    cs = before ++ inner ++ behind

theorem dropBlanksEnd_append_blanks {blanks : List Char} (blank : ∀ x ∈ blanks, isBlank x = true) :
    dropBlanksEnd (cs ++ blanks) = dropBlanksEnd cs := by
  have turned : ∀ x ∈ blanks.reverse, isBlank x = true :=
    fun x member => blank x (List.mem_reverse.mp member)
  rw [dropBlanksEnd, List.reverse_append, List.dropWhile_append_of_pos turned, ← dropBlanksEnd]

/-- Blanks are dropped up to a character that is none. -/
theorem dropBlanksEnd_append {x : Char} (dense : isBlank x = false) (front back : List Char) :
    dropBlanksEnd (front ++ x :: back) = front ++ x :: dropBlanksEnd back := by
  induction back using List.reverseRecOn with
  | nil =>
    rw [dropBlanksEnd_concat, dense]
    rfl
  | append_singleton back y ih =>
    rw [← List.cons_append, ← List.append_assoc, dropBlanksEnd_concat, dropBlanksEnd_concat]
    split
    · exact ih
    · rw [List.append_assoc, List.cons_append]

theorem dropBlanksEnd_subset (cs : List Char) : dropBlanksEnd cs ⊆ cs :=
  (List.rdropWhile_prefix isBlank cs).subset

/-- What is dropped at the end are blanks. -/
theorem exists_dropBlanksEnd (cs : List Char) :
    ∃ blanks, (∀ x ∈ blanks, isBlank x = true) ∧ cs = dropBlanksEnd cs ++ blanks :=
  ⟨cs.rtakeWhile isBlank, fun _ => List.mem_rtakeWhile_imp,
    List.rdropWhile_append_rtakeWhile.symm⟩

theorem padded_trim (cs : List Char) : Padded (trim cs) cs := by
  obtain ⟨behind, blank, same⟩ := exists_dropBlanksEnd (dropBlanks cs)
  refine ⟨cs.takeWhile isBlank, behind, fun _ => List.mem_takeWhile_imp, blank, ?_⟩
  rw [List.append_assoc, trim, ← same, dropBlanks, List.takeWhile_append_dropWhile]

/-- Trimming takes away what stands around a text. -/
theorem Padded.trim_eq {inner : List Char} (padded : Padded inner cs) : trim cs = trim inner := by
  obtain ⟨before, behind, blank₁, blank₂, rfl⟩ := padded
  rw [List.append_assoc, trim, trim, dropBlanks, List.dropWhile_append_of_pos blank₁,
    List.dropWhile_append, ← dropBlanks]
  split
  · next empty =>
    rw [List.isEmpty_iff.mp empty, List.dropWhile_eq_nil_iff.mpr blank₂]
  · exact dropBlanksEnd_append_blanks blank₂

theorem Padded.not_mem {inner : List Char} {x : Char} (padded : Padded inner cs)
    (dense : isBlank x = false) (absent : x ∉ inner) : x ∉ cs := by
  obtain ⟨before, behind, blank₁, blank₂, rfl⟩ := padded
  intro member
  rcases List.mem_append.mp member with front | back
  · rcases List.mem_append.mp front with front | inside
    · exact absurd (blank₁ x front) (by simp [dense])
    · exact absent inside
  · exact absurd (blank₂ x back) (by simp [dense])

theorem mem_trim {x : Char} {cs : List Char} (member : x ∈ cs) (dense : isBlank x = false) :
    x ∈ trim cs := by
  by_contra absent
  exact (padded_trim cs).not_mem dense absent member

/-- Lines that each end with a line feed are cut apart again. -/
theorem pieces_flatMap {ls : List (List Char)} (flat : ∀ line ∈ ls, '\n' ∉ line) :
    pieces '\n' (ls.flatMap (· ++ ['\n'])) = ls ++ [[]] := by
  induction ls with
  | nil => rfl
  | cons line ls ih =>
    obtain ⟨first, rest⟩ := List.forall_mem_cons.mp flat
    have cut := ih rest
    rw [pieces_eq_splitOn] at cut ⊢
    rw [List.flatMap_cons, List.append_assoc, List.singleton_append,
      List.splitOn_append_cons_self, List.splitOn_eq_singleton first, cut]
    rfl

end Text

/-! ### References -/

namespace Reference

variable {r : Reference} {refs : List Reference}

theorem toList_text (r : Reference) :
    r.text.toList = r.file.toList ++ ':' :: (toString r.line).toList := by
  simp [text]

/-- The text stands for the reference: its file, a colon, and a numeral of its line between
blanks. -/
def Spelled (s : String) (r : Reference) : Prop :=
  r.file ≠ "" ∧ ∃ numeral back, Text.IsPosition numeral r.line ∧ Text.Padded numeral back ∧
    s.toList = r.file.toList ++ ':' :: back

section

variable {s : String} {front back : List Char}

theorem ofText_of_not_mem (absent : ':' ∉ s.toList) :
    ofText s = .error (.of (.badReference s)) := by
  rw [ofText, Text.splitLast?_eq_none fun member => absent (Text.dropBlanksEnd_subset _ member)]

/-- What is read of a text is decided at its last colon: the file stands in front of it, and the
number behind it, between blanks. -/
theorem ofText_of_cut (cut : s.toList = front ++ ':' :: back) (absent : ':' ∉ back) :
    ofText s = .ok r ↔
      r.file.toList = front ∧ r.file ≠ "" ∧ Text.readPosition (Text.trim back) = .ok r.line := by
  obtain ⟨blanks, blank, same⟩ := Text.exists_dropBlanksEnd back
  -- The blanks at the end of the text would be trimmed off the number in any case.
  have padded : Text.Padded (Text.dropBlanksEnd back) back :=
    ⟨[], blanks, List.forall_mem_nil _, blank, same⟩
  have absent : ':' ∉ Text.dropBlanksEnd back :=
    fun member => absent (Text.dropBlanksEnd_subset back member)
  rw [ofText, cut, Text.dropBlanksEnd_append (by decide), Text.splitLast?_append absent,
    padded.trim_eq]
  dsimp only
  constructor
  · intro read
    split at read
    · cases read
    · next named =>
      split at read
      · next number =>
        cases read
        refine ⟨String.toList_ofList, ?_, number⟩
        simpa using named
      · cases read
  · rintro ⟨rfl, named, number⟩
    have filled : ¬r.file.toList.isEmpty := by
      rwa [List.isEmpty_iff, String.toList_eq_nil_iff]
    rw [if_neg filled, number, String.ofList_toList]

/-- Exactly the texts that stand for a reference are read as it. -/
theorem ofText_eq_ok : ofText s = .ok r ↔ Spelled s r := by
  constructor
  · intro read
    by_cases member : ':' ∈ s.toList
    · obtain ⟨front, back, cut, absent⟩ := Text.exists_last member
      obtain ⟨rfl, named, number⟩ := (ofText_of_cut cut absent).mp read
      exact ⟨named, Text.trim back, back, Text.readPosition_eq_ok.mp number,
        Text.padded_trim back, cut⟩
    · rw [ofText_of_not_mem member] at read
      cases read
  · rintro ⟨named, numeral, back, position, padded, cut⟩
    have absent : ':' ∉ back := padded.not_mem (by decide) position.not_mem_colon
    refine (ofText_of_cut cut absent).mpr ⟨rfl, named, ?_⟩
    rw [padded.trim_eq, Text.trim_eq_self position.dense]
    exact Text.readPosition_eq_ok.mpr position

example : ofText "a:b.lns: +007\r\n" = .ok ⟨"a:b.lns", 7⟩ := by rfl

end

/-- A reference with a name stands written in its text. -/
theorem spelled_text (named : r.file ≠ "") (small : r.line < Text.positionLimit) :
    Spelled r.text r :=
  ⟨named, _, _, Text.isPosition_toString small, ⟨[], [], by simp⟩, toList_text r⟩

/-- A reference with a name is read back. -/
theorem ofText_text (named : r.file ≠ "") (small : r.line < Text.positionLimit) :
    ofText r.text = .ok r :=
  ofText_eq_ok.mpr (spelled_text named small)

/-- The text of a reference ends with a digit. -/
theorem exists_digit (r : Reference) :
    ∃ front x, r.text.toList = front ++ [x] ∧ x.isDigit = true := by
  obtain ⟨digits, x, eq⟩ : ∃ digits x, (toString r.line).toList = digits ++ [x] :=
    ⟨_, _, (List.dropLast_concat_getLast (Text.toString_ne_nil r.line)).symm⟩
  refine ⟨r.file.toList ++ ':' :: digits, x, ?_, ?_⟩
  · rw [toList_text, eq, List.append_assoc, List.cons_append]
  · exact Text.isDigit_toString (eq ▸ List.mem_append_right _ List.mem_cons_self)

/-- The lines of an index are the texts of its references. -/
theorem indexEntries_indexText (flat : ∀ r ∈ refs, '\n' ∉ r.file.toList) :
    indexEntries (indexText refs) = refs.map text := by
  have lines : (indexText refs).toList =
      (refs.map fun r => r.text.toList).flatMap (· ++ ['\n']) := by
    rw [indexText]
    induction refs with
    | nil => rfl
    | cons r refs ih =>
      rw [List.map_cons, String.join_cons, String.toList_append, ih (fun r member =>
        flat r (List.mem_cons_of_mem _ member))]
      simp
  have cut : Text.pieces '\n' (indexText refs).toList =
      (refs.map fun r => r.text.toList) ++ [[]] := by
    rw [lines]
    refine Text.pieces_flatMap fun line member => ?_
    obtain ⟨r, inside, rfl⟩ := List.mem_map.mp member
    rw [toList_text]
    simp only [List.mem_append, List.mem_cons, not_or]
    exact ⟨flat r inside, by decide, Text.not_mem_toString (by decide)⟩
  -- A text ends with a digit: it is not blank, and there is no return to drop.
  have kept : ∀ r : Reference, Text.dropReturn r.text.toList = r.text.toList := by
    intro r
    obtain ⟨front, x, eq, digit⟩ := exists_digit r
    rw [Text.dropReturn, if_neg]
    rw [eq, List.getLast?_concat]
    intro same
    cases same
    cases digit
  have dense : ∀ r : Reference, (Text.trim r.text.toList).isEmpty = false := by
    intro r
    have colon : ':' ∈ Text.trim r.text.toList := by
      refine Text.mem_trim ?_ (by decide)
      rw [toList_text]
      exact List.mem_append_right _ List.mem_cons_self
    rw [Bool.eq_false_iff, ne_eq, List.isEmpty_iff]
    exact List.ne_nil_of_mem colon
  have parted : Text.lines (indexText refs).toList = refs.map fun r => r.text.toList := by
    rw [Text.lines, cut, List.dropLast_concat, List.getLast?_concat, List.map_map]
    simp only [Function.comp_def, kept]
    exact List.append_nil _
  have all : refs.filter ((fun line => !(Text.trim line).isEmpty) ∘ fun r => r.text.toList) =
      refs :=
    List.filter_eq_self.mpr fun r _ => by rw [Function.comp_apply, dense, Bool.not_false]
  rw [indexEntries, parted, List.filter_map, all, List.map_map]
  simp only [Function.comp_def, String.ofList_toList]

end Reference

/-! ### Identifiers -/

namespace TextId

theorem toList_text (id : TextId) : id.text.toList =
    opening.toList ++ ((id.name.toList ++ ':' :: (toString id.line).toList) ++
      ':' :: (toString id.index).toList) := by
  simp [text]

/-- The text stands for the identifier: the opening, the name, and numerals of the line and of the
index, each behind a colon. -/
def Spelled (s : String) (id : TextId) : Prop :=
  ∃ line index, Text.IsPosition line id.line ∧ Text.IsPosition index id.index ∧
    s.toList = opening.toList ++ ((id.name.toList ++ ':' :: line) ++ ':' :: index)

variable {s : String} {id : TextId}

/-- Exactly the texts that stand for an identifier are read as it. -/
theorem ofText_eq_ok : ofText s = .ok id ↔ Spelled s id := by
  have spelled : ofText? s = some id ↔ Spelled s id := by
    simp only [ofText?, Option.bind_eq_bind, Option.bind_eq_some_iff, Prod.exists,
      Text.dropOpening?_eq_some, Text.splitLast?_eq_some, Text.toOption_readPosition,
      Option.pure_def, Option.some_inj]
    constructor
    · rintro ⟨_, opened, _, index, ⟨rfl, _⟩, _, line, ⟨rfl, _⟩, _, atIndex, _, onLine, rfl⟩
      exact ⟨line, index, onLine, atIndex, by rw [opened, String.toList_ofList]⟩
    · rintro ⟨line, index, onLine, atIndex, opened⟩
      exact ⟨_, opened, _, _, ⟨rfl, atIndex.not_mem_colon⟩, _, _, ⟨rfl, onLine.not_mem_colon⟩,
        _, atIndex, _, onLine, by rw [String.ofList_toList]⟩
  rw [← spelled, ofText]
  cases ofText? s <;> simp

example : ofText "lsb:text:x:1" = .error (.badIdentifier "lsb:text:x:1") := by rfl

/-- An identifier stands written in its text. -/
theorem spelled_text (line : id.line < Text.positionLimit) (index : id.index < Text.positionLimit) :
    Spelled id.text id :=
  ⟨_, _, Text.isPosition_toString line, Text.isPosition_toString index, toList_text id⟩

/-- An identifier is read back, whatever the chart is called. -/
theorem ofText_text (line : id.line < Text.positionLimit) (index : id.index < Text.positionLimit) :
    ofText id.text = .ok id :=
  ofText_eq_ok.mpr (spelled_text line index)

/-- Different identifiers have different texts. -/
theorem text_injective {a b : TextId} (same : a.text = b.text) : a = b := by
  have parts := congrArg String.toList same
  rw [toList_text, toList_text] at parts
  have digits : ∀ n : Nat, ':' ∉ (toString n).toList := fun _ => Text.not_mem_toString (by decide)
  obtain ⟨front, index⟩ :=
    Text.last_unique (digits a.index) (digits b.index) (List.append_cancel_left parts)
  obtain ⟨name, line⟩ := Text.last_unique (digits a.line) (digits b.line) front
  obtain ⟨_, _, _⟩ := a
  obtain ⟨_, _, _⟩ := b
  rw [mk.injEq]
  exact ⟨String.toList_inj.mp name, Text.toString_injective line, Text.toString_injective index⟩

end TextId

/-- Identifiers and references survive being written and read again. An identifier is read back
whatever the chart is called, and different identifiers have different texts; a reference is read
back whatever its file is called, as long as the name is not empty. -/
theorem identifiers_read_back :
    (∀ id : TextId, id.line < Text.positionLimit → id.index < Text.positionLimit →
      TextId.ofText id.text = .ok id) ∧
    (∀ a b : TextId, a ≠ b → a.text ≠ b.text) ∧
    ∀ r : Reference, r.file ≠ "" → r.line < Text.positionLimit →
      Reference.ofText r.text = .ok r := by
  refine ⟨fun id line index => ?_, fun a b differ same => ?_, fun r named small => ?_⟩
  · exact TextId.ofText_eq_ok.mpr (TextId.spelled_text line index)
  · exact differ (TextId.text_injective same)
  · exact Reference.ofText_eq_ok.mpr (Reference.spelled_text named small)

/-- Names that end like an identifier or a reference themselves, with the largest line. -/
theorem identifiers_read_back_hostile :
    TextId.ofText "lsb:text:lsb:text::0:1::18446744073709551615:0" =
      .ok ⟨"lsb:text::0:1:", 18446744073709551615, 0⟩ ∧
    (⟨"c:1", 2, 3⟩ : TextId).text ≠ (⟨"c", 1, 23⟩ : TextId).text ∧
    Reference.ofText " :\t+7 ::12" = .ok ⟨" :\t+7 :", 12⟩ := by
  refine ⟨?_, ?_, ?_⟩
  · exact identifiers_read_back.1 ⟨"lsb:text::0:1:", 18446744073709551615, 0⟩ (by decide)
      (by decide)
  · exact identifiers_read_back.2.1 ⟨"c:1", 2, 3⟩ ⟨"c", 1, 23⟩ (by decide)
  · exact identifiers_read_back.2.2 ⟨" :\t+7 :", 12⟩ (by decide) (by decide)

/-! ### Names in groups -/

/-- A name in a group is taken apart into the name of the field and the number of the group. -/
theorem Field.splitName?_nameInGroup {f : Field} {group : Nat} (plain : '[' ∉ f.name.toList)
    (dense : ∀ x ∈ f.name.toList, Text.isBlank x = false) (small : group < Text.positionLimit) :
    splitName? (f.nameInGroup group) = some (f.name, group) := by
  have parts : (f.nameInGroup group).toList =
      f.name.toList ++ '[' :: ((toString group).toList ++ [']']) := by
    simp [nameInGroup]
  have base : (f.nameInGroup group).toList.takeWhile (· != '[') = f.name.toList := by
    have before : ∀ x ∈ f.name.toList, (x != '[') = true := by
      intro x member
      rw [bne_iff_ne]
      rintro rfl
      exact plain member
    rw [parts, List.takeWhile_append_of_pos before, List.takeWhile_cons_of_neg (by simp),
      List.append_nil]
  have behind : (f.nameInGroup group).toList.drop f.name.toList.length =
      '[' :: ((toString group).toList ++ [']']) := by
    rw [parts, List.drop_left]
  simp only [splitName?, base, behind, List.reverse_append, List.reverse_singleton,
    List.singleton_append, List.reverse_reverse, Text.trim_toString,
    Text.readPosition_toString small, Text.trim_eq_self dense, String.ofList_toList]

end NovelChart
