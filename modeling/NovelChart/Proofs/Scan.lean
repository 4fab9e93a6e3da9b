import NovelChart.Proofs.Markup
import NovelChart.Script.Scan

/-!
# Scanning what was printed

The scanner knows little: whether it stands in text, in a comment, or between angle brackets, and
there whether inside quotes. What is printed keeps to that. A protected character is scanned as
itself, the inside of a printed tag is collected whole whatever its values hold, and a comment ends
with its line.

## Main definitions

* `Script.Skips`: characters that are collected whole between angle brackets

## Main results

* `Script.scan_escapeChar`: a protected character is scanned as itself
* `Script.scan_bracket`: what is skipped between angle brackets is scanned as the markup it spells
* `Script.scan_printComment`: a printed comment is scanned as a comment, without its line ends
-/

namespace NovelChart.Script

variable {c : Char} {cs body rest : List Char} {fresh : Bool}

/-! ### Steps

How the scanner takes in one character, wherever it stands. -/

section

variable (start line : Nat) (c : Char) (body rest : List Char)

theorem scanFrom_text_cons (fresh : Bool) : scanFrom (.text fresh) line (c :: rest) =
    if c = '\n' then scanFrom (.text true) (line + 1) rest
    else if c = '\r' then scanFrom (.text fresh) line rest
    else if c = ';' ∧ fresh then scanFrom (.comment []) line rest
    else if c = '\\' then scanFrom .escape line rest
    else if c = '<' then scanFrom (.tag line [] false) line rest
    else (scanFrom (.text false) line rest).cons (.char c) :=
  rfl

theorem scanFrom_comment_cons : scanFrom (.comment body) line (c :: rest) =
    if c = '\n' then
      (scanFrom (.text true) (line + 1) rest).cons (.comment (String.ofList body.reverse))
    else if c = '\r' then scanFrom (.comment body) line rest
    else scanFrom (.comment (c :: body)) line rest :=
  rfl

theorem scanFrom_escape_cons : scanFrom .escape line (c :: rest) =
    match escaped? c with
    | some d => (scanFrom (.text false) line rest).cons (.char d)
    | none => stop line none (.unknownEscape c) :=
  rfl

theorem scanFrom_tag_cons (quoted : Bool) : scanFrom (.tag start body quoted) line (c :: rest) =
    if c = '>' ∧ ¬quoted then
      match Markup.parse body.reverse with
      | .ok m => (scanFrom (.text false) line rest).cons (.markup start m)
      | .error (tag, f) => stop start tag f
    else if c = '\\' ∧ quoted then scanFrom (.tagEscape start (c :: body)) line rest
    else scanFrom (.tag start (c :: body) (if c = '"' then !quoted else quoted))
      (lineAfter line c) rest :=
  rfl

theorem scanFrom_tagEscape_cons : scanFrom (.tagEscape start body) line (c :: rest) =
    scanFrom (.tag start (c :: body) true) (lineAfter line c) rest :=
  rfl

end

/-! ### Text -/

/-- A protected character is scanned as itself. -/
theorem scan_escapeChar (c : Char) (fresh : Bool) (line : Nat) (rest : List Char) :
    scanFrom (.text fresh) line (escapeChar c ++ rest) =
      (scanFrom (.text false) line rest).cons (.char c) := by
  by_cases special : c = '\\' ∨ c = '<' ∨ c = '>' ∨ c = ';'
  · -- A character with a meaning stands behind a backslash, which gives it back.
    have kept : escaped? c = some c := by simp [escaped?, special]
    simp [escapeChar, special, scanFrom_text_cons, scanFrom_escape_cons, kept]
  · simp only [not_or] at special
    obtain ⟨backslash, opens, closes, semicolon⟩ := special
    by_cases newline : c = '\n'
    · -- Line ends are spelled by letters, so that the line number does not change.
      subst newline
      simp [escapeChar, scanFrom_text_cons, scanFrom_escape_cons, escaped?]
    · by_cases ret : c = '\r'
      · subst ret
        simp [escapeChar, scanFrom_text_cons, scanFrom_escape_cons, escaped?]
      · simp [escapeChar, scanFrom_text_cons, backslash, opens, closes, semicolon, newline, ret]

/-- A protected character does not end a line. -/
theorem getLast?_escapeChar (c : Char) : ∃ d, (escapeChar c).getLast? = some d ∧ d ≠ '\n' := by
  by_cases special : c = '\\' ∨ c = '<' ∨ c = '>' ∨ c = ';'
  · refine ⟨c, by simp [escapeChar, special], ?_⟩
    rintro rfl
    simp at special
  · by_cases newline : c = '\n'
    · exact ⟨'n', by simp [escapeChar, newline], by decide⟩
    · by_cases ret : c = '\r'
      · exact ⟨'r', by simp [escapeChar, ret], by decide⟩
      · exact ⟨c, by simp [escapeChar, special, newline, ret], newline⟩

/-! ### Markup -/

/-- Between angle brackets and outside quotes, the characters are collected whole. -/
def Skips (body : List Char) : Prop :=
  ∀ start collected line rest,
    scanFrom (.tag start collected false) line (body ++ rest) =
      scanFrom (.tag start (body.reverse ++ collected) false) (line + body.count '\n') rest

theorem Skips.append (first : Skips cs) (second : Skips body) : Skips (cs ++ body) := by
  intro start collected line rest
  rw [List.append_assoc, first, second, List.reverse_append, List.append_assoc, List.count_append,
    Nat.add_assoc]

theorem lineAfter_eq (line : Nat) (c : Char) : lineAfter line c = line + [c].count '\n' := by
  rw [lineAfter, List.count_singleton]
  split <;> simp_all

/-- Characters other than quotes and the closing bracket are collected. -/
theorem skips_of_plain (plain : ∀ c ∈ cs, c ≠ '>' ∧ c ≠ '"') : Skips cs := by
  induction cs with
  | nil => exact fun start collected line rest => rfl
  | cons c cs ih =>
    rw [List.forall_mem_cons] at plain
    obtain ⟨⟨bracket, quote⟩, plain⟩ := plain
    have first : Skips [c] := by
      intro start collected line rest
      rw [← lineAfter_eq]
      simp [scanFrom_tag_cons, bracket, quote]
    exact first.append (ih plain)

/-- Inside quotes every value is collected, its quotes and backslashes being protected. -/
theorem scan_quoted (cs : List Char) : ∀ start collected line rest,
    scanFrom (.tag start collected true) line (cs.flatMap quoteValueChar ++ rest) =
      scanFrom (.tag start ((cs.flatMap quoteValueChar).reverse ++ collected) true)
        (line + (cs.flatMap quoteValueChar).count '\n') rest := by
  induction cs with
  | nil => exact fun start collected line rest => rfl
  | cons c cs ih =>
    intro start collected line rest
    have step : scanFrom (.tag start collected true) line
        (quoteValueChar c ++ (cs.flatMap quoteValueChar ++ rest)) =
        scanFrom (.tag start ((quoteValueChar c).reverse ++ collected) true)
          (line + (quoteValueChar c).count '\n') (cs.flatMap quoteValueChar ++ rest) := by
      rw [quoteValueChar]
      split
      · next special =>
        -- The scanner takes the character behind a backslash without looking at it.
        have flat : (['\\', c] : List Char).count '\n' = [c].count '\n' := by simp
        rw [flat, ← lineAfter_eq]
        simp [scanFrom_tag_cons, scanFrom_tagEscape_cons]
      · next plain =>
        obtain ⟨quote, backslash⟩ := not_or.mp plain
        rw [← lineAfter_eq]
        simp [scanFrom_tag_cons, quote, backslash]
    rw [List.flatMap_cons, List.append_assoc, step, ih, List.reverse_append, List.append_assoc,
      List.count_append, Nat.add_assoc]

theorem skips_quoted (cs : List Char) : Skips ('"' :: cs.flatMap quoteValueChar ++ ['"']) := by
  intro start collected line rest
  have opening : scanFrom (.tag start collected false) line
      ('"' :: cs.flatMap quoteValueChar ++ ['"'] ++ rest) =
      scanFrom (.tag start ('"' :: collected) true) line
        (cs.flatMap quoteValueChar ++ '"' :: rest) := by
    simp [scanFrom_tag_cons, lineAfter]
  rw [opening, scan_quoted]
  simp [scanFrom_tag_cons, lineAfter]

theorem skips_printValue (v : String) : Skips (printValue v) := by
  rw [printValue]
  split
  · next bare =>
    refine skips_of_plain fun c member => ?_
    have plain := List.all_eq_true.mp (Bool.and_eq_true_iff.mp bare).2 c member
    obtain ⟨_, _, quote, bracket⟩ := Markup.toNat_of_isPlainValueChar plain
    exact ⟨bracket, quote⟩
  · exact skips_quoted v.toList

/-- The characters of a name are collected. -/
theorem skips_word (inside : ∀ c ∈ cs, Markup.isWordChar c = true) : Skips cs := by
  refine skips_of_plain fun c member => ⟨?_, ?_⟩
  · rintro rfl
    exact absurd (inside '>' member) (by decide)
  · rintro rfl
    exact absurd (inside '"' member) (by decide)

/-- The inside of a tag is collected. -/
theorem skips_writeInside {name : String} {attrs : List (String × String)}
    (word : ∀ c ∈ name.toList, Markup.isWordChar c = true)
    (words : ∀ attr ∈ attrs, ∀ c ∈ attr.1.toList, Markup.isWordChar c = true) :
    Skips (Markup.writeInside name attrs) := by
  refine (skips_word word).append ?_
  induction attrs with
  | nil => exact skips_of_plain (by simp)
  | cons attr attrs ih =>
    rw [List.forall_mem_cons] at words
    -- Blank, name, equals sign and value are collected one after the other.
    have blank : Skips [' '] := skips_of_plain (by simp)
    have equals : Skips ['='] := skips_of_plain (by simp)
    have first := (blank.append (skips_word words.1)).append
      (equals.append (skips_printValue attr.2))
    exact first.append (ih words.2)

/-- What is skipped between angle brackets is scanned as the markup that it spells, or else scanning
stops. -/
theorem scan_bracket (skips : Skips body) (fresh : Bool) (line : Nat) (rest : List Char) :
    scanFrom (.text fresh) line ('<' :: (body ++ '>' :: rest)) =
      match Markup.parse body with
      | .ok m => (scanFrom (.text false) (line + body.count '\n') rest).cons (.markup line m)
      | .error (tag, f) => stop line tag f := by
  have opening : scanFrom (.text fresh) line ('<' :: (body ++ '>' :: rest)) =
      scanFrom (.tag line [] false) line (body ++ '>' :: rest) := by
    simp [scanFrom_text_cons]
  rw [opening, skips, List.append_nil]
  cases parsed : Markup.parse body with
  | ok m => simp [scanFrom_tag_cons, parsed]
  | error fault => simp [scanFrom_tag_cons, parsed]

theorem scan_markup {m : Markup} (skips : Skips body) (parsed : Markup.parse body = .ok m)
    (fresh : Bool) (line : Nat) (rest : List Char) :
    scanFrom (.text fresh) line ('<' :: (body ++ '>' :: rest)) =
      (scanFrom (.text false) (line + body.count '\n') rest).cons (.markup line m) := by
  rw [scan_bracket skips, parsed]

/-! ### Comments -/

/-- A comment runs to the end of its line. -/
theorem scan_comment (plain : ∀ c ∈ cs, c ≠ '\r' ∧ c ≠ '\n') (collected : List Char) (line : Nat)
    (rest : List Char) :
    scanFrom (.comment collected) line (cs ++ '\n' :: rest) =
      (scanFrom (.text true) (line + 1) rest).cons
        (.comment (String.ofList (collected.reverse ++ cs))) := by
  induction cs generalizing collected with
  | nil => simp [scanFrom_comment_cons]
  | cons c cs ih =>
    obtain ⟨ret, newline⟩ := plain c List.mem_cons_self
    have later := ih (fun c member => plain c (List.mem_cons_of_mem _ member)) (c :: collected)
    rw [List.reverse_cons, List.append_assoc, List.singleton_append] at later
    simp [scanFrom_comment_cons, ret, newline, later]

/-- A comment as it is printed, without line ends. -/
def cleanComment (body : String) : String :=
  String.ofList (body.toList.filter fun c => c != '\r' && c != '\n')

/-- A printed comment is scanned as a comment, and the next line begins. -/
theorem scan_printComment (fresh : Bool) (body : String) (line : Nat) (rest : List Char) :
    ∃ line', scanFrom (.text fresh) line (printComment fresh body ++ rest) =
      (scanFrom (.text true) line' rest).cons (.comment (cleanComment body)) := by
  have plain : ∀ c ∈ body.toList.filter (fun c => c != '\r' && c != '\n'), c ≠ '\r' ∧ c ≠ '\n' := by
    intro c member
    simpa using (List.mem_filter.mp member).2
  cases fresh with
  | true =>
    -- At the start of a line the comment begins at once, otherwise behind a line end.
    refine ⟨line + 1, ?_⟩
    have scanned := scan_comment plain [] line rest
    simpa [printComment, scanFrom_text_cons, cleanComment] using scanned
  | false =>
    refine ⟨line + 1 + 1, ?_⟩
    have scanned := scan_comment plain [] (line + 1) rest
    simpa [printComment, scanFrom_text_cons, cleanComment] using scanned

end NovelChart.Script
