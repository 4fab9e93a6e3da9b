import NovelChart.Proofs.Recompile
import NovelChart.Proofs.Spelling

/-!
# Scripts of one tag

A script that consists of one tag, with content and a closing tag if the tag encloses something, is
compiled to the same tokens however the tag is spelled. Up to the closing bracket nothing of the
spelling is left but the markup that was read and the number of lines. The closing tag is scanned as
markup where the content leaves the scanner in text. Elsewhere it is swallowed, and then the script
is refused in either spelling as long as the content does not close the tag itself. If it does, the
spelling is lost where the closing tag goes into a comment that is dropped, or into quotes that are
never closed.

## Main definitions

* `Script.oneTag`: a script of one tag
* `Script.DropsCase`, `Script.ClosesOwn`: content behind which the case of a closing tag is lost, and
  content that closes no tag but those that it opens
* `Script.Builder.Begins`: the first token of a tree under construction, or of one that is finished

## Main results

* `Script.scan_cut`: a script can be scanned in two parts
* `Script.run_of_closesOwn`: a script that closes only what it opens leaves an open span open
* `Script.Builder.Begins.exists_cons`: the first token of a tree is the one that was begun with
* `Script.spelling_irrelevant`: all spellings of a tag are compiled to the same tokens
* `Script.spelling_swallowed`: but not around every content
-/

namespace NovelChart.Script

variable {keep fresh : Bool} {b b' : Builder}

/-! ### Scanning in two parts -/

/-- Pieces in front of what was scanned behind them. -/
def Scanned.behind (pieces : List Piece) (s : Scanned) : Scanned :=
  { s with pieces := pieces ++ s.pieces }

/-- A character takes the scanner from one place to another, or stops it. -/
theorem scan_step (mode : Mode) (line : Nat) (c : Char) :
    (∃ e, ∀ rest, scanFrom mode line (c :: rest) = ⟨[], .fault e⟩) ∨
    ∃ pieces mode' line', ∀ rest,
      scanFrom mode line (c :: rest) = (scanFrom mode' line' rest).behind pieces := by
  have moves : ∀ mode' line', (∀ rest, scanFrom mode line (c :: rest) =
      scanFrom mode' line' rest) → ∃ pieces mode' line', ∀ rest,
        scanFrom mode line (c :: rest) = (scanFrom mode' line' rest).behind pieces :=
    fun mode' line' eq => ⟨[], mode', line', eq⟩
  have yields : ∀ p mode' line', (∀ rest, scanFrom mode line (c :: rest) =
      (scanFrom mode' line' rest).cons p) → ∃ pieces mode' line', ∀ rest,
        scanFrom mode line (c :: rest) = (scanFrom mode' line' rest).behind pieces :=
    fun p mode' line' eq => ⟨[p], mode', line', eq⟩
  cases mode with
  | text fresh =>
    refine .inr ?_
    simp only [scanFrom_text_cons] at moves yields ⊢
    split_ifs at moves yields ⊢
    · exact moves (.text true) (line + 1) fun _ => rfl
    · exact moves (.text fresh) line fun _ => rfl
    · exact moves (.comment []) line fun _ => rfl
    · exact moves .escape line fun _ => rfl
    · exact moves (.tag line [] false) line fun _ => rfl
    · exact yields (.char c) (.text false) line fun _ => rfl
  | comment body =>
    refine .inr ?_
    simp only [scanFrom_comment_cons] at moves yields ⊢
    split_ifs at moves yields ⊢
    · exact yields _ (.text true) (line + 1) fun _ => rfl
    · exact moves (.comment body) line fun _ => rfl
    · exact moves (.comment (c :: body)) line fun _ => rfl
  | escape =>
    simp only [scanFrom_escape_cons] at moves yields ⊢
    cases meant : escaped? c with
    | none => exact .inl ⟨_, fun _ => rfl⟩
    | some d =>
      rw [meant] at yields
      exact .inr (yields _ (.text false) line fun _ => rfl)
  | tag start body quoted =>
    simp only [scanFrom_tag_cons] at moves yields ⊢
    split_ifs at moves yields ⊢
    · cases parsed : Markup.parse body.reverse with
      | ok m =>
        rw [parsed] at yields
        exact .inr (yields _ (.text false) line fun _ => rfl)
      | error fault => exact .inl ⟨_, fun _ => rfl⟩
    · exact .inr (moves _ _ fun _ => rfl)
    · exact .inr (moves _ _ fun _ => rfl)
    · exact .inr (moves _ _ fun _ => rfl)
  | tagEscape start body => exact .inr (moves _ _ fun _ => rfl)

/-- A script can be scanned in two parts: the first one takes the scanner somewhere, or stops it,
whatever stands behind it. -/
theorem scan_cut (cs : List Char) (mode : Mode) (line : Nat) :
    (∃ pieces e, ∀ rest, scanFrom mode line (cs ++ rest) = ⟨pieces, .fault e⟩) ∨
    ∃ pieces mode' line', ∀ rest,
      scanFrom mode line (cs ++ rest) = (scanFrom mode' line' rest).behind pieces := by
  induction cs generalizing mode line with
  | nil => exact .inr ⟨[], mode, line, fun _ => rfl⟩
  | cons c cs ih =>
    rcases scan_step mode line c with ⟨e, stops⟩ | ⟨pieces, mode₁, line₁, first⟩
    · exact .inl ⟨[], e, fun rest => stops (cs ++ rest)⟩
    · rcases ih mode₁ line₁ with ⟨more, e, stops⟩ | ⟨more, mode₂, line₂, second⟩
      · refine .inl ⟨pieces ++ more, e, fun rest => ?_⟩
        rw [List.cons_append, first, stops]
        rfl
      · refine .inr ⟨pieces ++ more, mode₂, line₂, fun rest => ?_⟩
        rw [List.cons_append, first, second]
        simp [Scanned.behind]

/-! ### Spans that stay open -/

/-- Whether a piece is a closing tag. -/
def Piece.closes : Piece → Bool
  | .markup _ (.closing _) => true
  | _ => false

/-- How many spans are open behind a piece; none if it closes a span where none is open. -/
def depthAfter? (depth : Nat) : Piece → Option Nat
  | .markup _ (.opening _ _) => some (depth + 1)
  | .markup _ (.closing _) => if depth = 0 then none else some (depth - 1)
  | _ => some depth

/-- Whether pieces close no span but those that they open. -/
def closesOwn (pieces : List Piece) : Bool :=
  (pieces.foldlM depthAfter? 0).isSome

theorem closesOwn_of_append {pieces more : List Piece}
    (own : closesOwn (pieces ++ more) = true) : closesOwn pieces = true := by
  rw [closesOwn, List.foldlM_append, Option.isSome_iff_exists] at own
  obtain ⟨depth', own⟩ := own
  obtain ⟨depth, first, _⟩ := Option.bind_eq_some_iff.mp own
  rw [closesOwn, first]
  rfl

theorem closesOwn_append {pieces more : List Piece} (own : closesOwn pieces = true)
    (plain : ∀ p ∈ more, p.closes = false) : closesOwn (pieces ++ more) = true := by
  obtain ⟨depth, first⟩ := Option.isSome_iff_exists.mp own
  have behind : ∀ depth, (more.foldlM depthAfter? depth).isSome = true := by
    clear own first
    induction more with
    | nil => exact fun depth => rfl
    | cons p more ih =>
      intro depth
      rw [List.forall_mem_cons] at plain
      obtain ⟨depth', stepped⟩ : ∃ depth', depthAfter? depth p = some depth' := by
        cases p with
        | char c => exact ⟨depth, rfl⟩
        | comment body => exact ⟨depth, rfl⟩
        | markup line m =>
          cases m with
          | token t => exact ⟨depth, rfl⟩
          | opening spec attrs => exact ⟨depth + 1, rfl⟩
          | closing name => cases plain.1
      rw [List.foldlM_cons, stepped]
      exact ih plain.2 depth'
  rw [closesOwn, List.foldlM_append, first]
  exact behind depth

/-- A builder has more open spans than the pieces have opened, if it had an open span before. -/
theorem Builder.stack_of_depthAfter? {p : Piece} {depth depth' : Nat}
    (after : depthAfter? depth p = some depth') (deep : depth < b.stack.length)
    (stepped : b.step keep p = .ok b') : depth' < b'.stack.length := by
  have pushed : ∀ t, (b.push t).stack = b.stack := fun t => flush_stack
  cases p with
  | char c =>
    cases after
    cases stepped
    exact deep
  | comment body =>
    cases after
    cases stepped
    split
    · rwa [pushed]
    · exact deep
  | markup line m =>
    cases m with
    | token t =>
      cases after
      cases stepped
      rwa [pushed]
    | opening spec attrs =>
      cases after
      rw [step] at stepped
      split at stepped
      · cases stepped
      · cases stepped
        rw [enter, List.length_cons, flush_stack]
        omega
    | closing name =>
      rw [depthAfter?] at after
      split at after
      · cases after
      · cases after
        rw [step] at stepped
        split at stepped
        · cases stepped
        · next frame stack top =>
          rw [top, List.length_cons] at deep
          split at stepped
          · cases stepped
            change depth - 1 < stack.length
            omega
          · cases stepped

/-- A script that closes only what it opens leaves an open span open, so it is not compiled. -/
theorem run_of_closesOwn {s : Scanned} (own : closesOwn s.pieces = true) (inside : b.stack ≠ []) :
    ∃ e, run keep b s = .error e := by
  obtain ⟨pieces, ending⟩ := s
  have deep : 0 < b.stack.length := List.length_pos_iff.mpr inside
  rw [closesOwn] at own
  clear inside
  generalize 0 = depth at own deep
  induction pieces generalizing b depth with
  | nil =>
    -- At the end some span is open still.
    obtain ⟨frame, stack, top⟩ := List.exists_cons_of_length_pos (Nat.zero_lt_of_lt deep)
    cases ending with
    | fault e => exact ⟨e, rfl⟩
    | finish line =>
      refine ⟨⟨line, some frame.tag.name, .neverClosed⟩, ?_⟩
      change b.finish (.finish line) = _
      rw [Builder.finish, top]
  | cons p pieces ih =>
    rw [List.foldlM_cons, Option.isSome_iff_exists] at own
    obtain ⟨last, own⟩ := own
    obtain ⟨depth', after, rest⟩ := Option.bind_eq_some_iff.mp own
    cases stepped : b.step keep p with
    | error e => exact ⟨e, by simp [run, stepped, bind, Except.bind]⟩
    | ok b' =>
      obtain ⟨e, failed⟩ := ih depth' (Option.isSome_iff_exists.mpr ⟨last, rest⟩)
        (Builder.stack_of_depthAfter? after deep stepped)
      refine ⟨e, ?_⟩
      rw [← failed]
      exact run_cons stepped ⟨pieces, ending⟩

/-! ### Closing tags that are swallowed -/

/-- A closing tag. -/
def writeClose (name : String) : List Char :=
  '<' :: (('/' :: name.toList) ++ ['>'])

namespace Markup

theorem ofTag_ne_closing {name other : String} {attrs : List (String × String)} :
    ofTag name attrs ≠ .ok (.closing other) := by
  intro made
  rw [ofTag] at made
  split at made
  · split at made <;> cases made
  · split at made
    · cases made
    · split at made
      · cases made
      · split at made <;> cases made

/-- A bracket does not stand inside of a closing tag. -/
theorem not_mem_of_parse_closing {body : List Char} {name : String}
    (read : parse body = .ok (.closing name)) : '<' ∉ body := by
  have bracket : Text.isBlank '<' = false := rfl
  have bracket' : isWordChar '<' = false := rfl
  intro member
  rw [parse] at read
  cases eaten : eat? '/' body with
  | some rest =>
    simp only [eaten, refuse_eq_ok, Bool.or_eq_true, not_or, Bool.not_eq_true'] at read
    obtain ⟨⟨_, blank⟩, _⟩ := read
    -- Behind the slash there are blanks and one name, and the bracket belongs to neither.
    have inside : '<' ∈ rest := by
      have front := Text.mem_dropWhile member bracket
      rw [eat?, Text.dropBlanks] at eaten
      split at eaten
      · cases eaten
      · next c cs left =>
        rw [left] at front
        split at eaten
        · next slash =>
          cases eaten
          rcases List.mem_cons.mp front with same | front
          · rw [← same] at slash
            cases slash
          · exact front
        · cases eaten
    have behind : '<' ∈ Text.dropBlanks (word rest).2 :=
      Text.mem_dropWhile (Text.mem_dropWhile (Text.mem_dropWhile inside bracket) bracket') bracket
    rw [Bool.not_eq_false, List.isEmpty_iff] at blank
    rw [blank] at behind
    cases behind
  | none =>
    simp only [eaten, refuse_eq_ok] at read
    obtain ⟨_, made⟩ := read
    split at made
    · cases made
    · exact ofTag_ne_closing made

end Markup

variable {close : String}

/-- Quotes that are never closed leave a tag open. -/
theorem scan_unclosed {cs : List Char} (plain : ∀ c ∈ cs, c ≠ '"' ∧ c ≠ '\\') (start : Nat)
    (body : List Char) (line : Nat) :
    scanFrom (.tag start body true) line cs = stop start none .unterminatedTag := by
  induction cs generalizing body line with
  | nil => rfl
  | cons c cs ih =>
    rw [List.forall_mem_cons] at plain
    obtain ⟨⟨quote, backslash⟩, plain⟩ := plain
    rw [scanFrom_tag_cons, if_neg (by simp), if_neg fun escape => backslash escape.1,
      if_neg quote]
    exact ih plain _ _

/-- A comment that does not end before the script does. -/
theorem scan_comment_end {cs : List Char} (plain : ∀ c ∈ cs, c ≠ '\n' ∧ c ≠ '\r')
    (body : List Char) (line : Nat) : ∃ text,
    scanFrom (.comment body) line cs = ⟨[.comment text], .finish line⟩ := by
  induction cs generalizing body with
  | nil => exact ⟨_, rfl⟩
  | cons c cs ih =>
    rw [List.forall_mem_cons] at plain
    obtain ⟨⟨feed, back⟩, plain⟩ := plain
    rw [scanFrom_comment_cons, if_neg feed, if_neg back]
    exact ih plain _

/-- In text nothing but characters is scanned up to the next bracket. -/
theorem pieces_text {cs : List Char} (plain : ∀ c ∈ cs, c ≠ '\n' ∧ c ≠ '<' ∧ c ≠ '\\')
    (line : Nat) : ∀ p ∈ (scanFrom (.text false) line cs).pieces, p.closes = false := by
  induction cs with
  | nil => simp [scanFrom]
  | cons c cs ih =>
    rw [List.forall_mem_cons] at plain
    obtain ⟨⟨feed, bracket, backslash⟩, plain⟩ := plain
    rw [scanFrom_text_cons, if_neg feed]
    split
    · exact ih plain
    · rw [if_neg (by simp)]
      rintro p (_ | ⟨_, member⟩)
      · rfl
      · exact ih plain p member

/-- A tag with another bracket in it is no closing tag. -/
theorem pieces_bracket {held : List Char} (bracket : '<' ∈ held) (start line : Nat) :
    ∀ p ∈ (scanFrom (.tag start held false) line ['>']).pieces, p.closes = false := by
  rw [scanFrom_tag_cons, if_pos (by simp)]
  cases read : Markup.parse held.reverse with
  | error fault => simp [stop]
  | ok m =>
    rintro p (_ | ⟨_, member⟩)
    · cases m with
      | token t => rfl
      | opening spec attrs => rfl
      | closing name =>
        exact absurd (List.mem_reverse.mpr bracket) (Markup.not_mem_of_parse_closing read)
    · cases member

/-- The characters of a closing tag. -/
theorem mem_writeClose (word : ∀ c ∈ close.toList, Markup.isWordChar c = true) {c : Char}
    (member : c ∈ writeClose close) :
    Markup.isWordChar c = true ∨ c = '<' ∨ c = '/' ∨ c = '>' := by
  simp only [writeClose, List.mem_cons, List.mem_append, List.not_mem_nil, or_false] at member
  rcases member with rfl | (rfl | member) | rfl
  · exact .inr (.inl rfl)
  · exact .inr (.inr (.inl rfl))
  · exact .inl (word c member)
  · exact .inr (.inr (.inr rfl))

/-- A closing tag holds no other marks. -/
theorem ne_of_mem_writeClose (word : ∀ c ∈ close.toList, Markup.isWordChar c = true) {d : Char}
    (noWord : Markup.isWordChar d = false) (noMark : d ≠ '<' ∧ d ≠ '/' ∧ d ≠ '>') :
    ∀ c ∈ writeClose close, c ≠ d := by
  rintro c member rfl
  rcases mem_writeClose word member with word | same | same | same
  · cases noWord.symm.trans word
  · exact noMark.1 same
  · exact noMark.2.1 same
  · exact noMark.2.2 same

/-- In quotes a closing tag is swallowed, and the quotes stay open. -/
theorem scan_writeClose_quoted (word : ∀ c ∈ close.toList, Markup.isWordChar c = true)
    (start : Nat) (body : List Char) (line : Nat) :
    scanFrom (.tag start body true) line (writeClose close) = stop start none .unterminatedTag ∧
    scanFrom (.tagEscape start body) line (writeClose close) =
      stop start none .unterminatedTag := by
  have plain : ∀ c ∈ writeClose close, c ≠ '"' ∧ c ≠ '\\' := fun c member =>
    ⟨ne_of_mem_writeClose word rfl (by decide) c member,
      ne_of_mem_writeClose word rfl (by decide) c member⟩
  refine ⟨scan_unclosed plain start body line, ?_⟩
  exact scan_unclosed (fun c member => plain c (List.mem_cons_of_mem _ member)) start _ _

/-- In a comment a closing tag is part of the comment. -/
theorem scan_writeClose_comment (word : ∀ c ∈ close.toList, Markup.isWordChar c = true)
    (body : List Char) (line : Nat) : ∃ text,
    scanFrom (.comment body) line (writeClose close) = ⟨[.comment text], .finish line⟩ :=
  scan_comment_end (fun c member => ⟨ne_of_mem_writeClose word rfl (by decide) c member,
    ne_of_mem_writeClose word rfl (by decide) c member⟩) body line

/-- Where the scanner is not in text, a closing tag is not scanned as such. -/
theorem scan_swallowed (word : ∀ c ∈ close.toList, Markup.isWordChar c = true) {mode : Mode}
    (inside : ∀ fresh, mode ≠ .text fresh) (line : Nat) :
    ∀ p ∈ (scanFrom mode line (writeClose close)).pieces, p.closes = false := by
  cases mode with
  | text fresh => exact absurd rfl (inside fresh)
  | comment body =>
    obtain ⟨text, scanned⟩ := scan_writeClose_comment word body line
    rw [scanned, List.forall_mem_singleton]
    rfl
  | escape =>
    -- The bracket stands for itself, and the rest is text.
    have plain : ∀ c ∈ ('/' :: close.toList) ++ ['>'], c ≠ '\n' ∧ c ≠ '<' ∧ c ≠ '\\' := by
      intro c member
      have member' : c ∈ writeClose close := List.mem_cons_of_mem _ member
      refine ⟨ne_of_mem_writeClose word rfl (by decide) c member', ?_,
        ne_of_mem_writeClose word rfl (by decide) c member'⟩
      rintro rfl
      rcases List.mem_append.mp member with front | last
      · rcases List.mem_cons.mp front with same | member
        · cases same
        · exact absurd (word '<' member) (by decide)
      · cases List.mem_singleton.mp last
    rintro p (_ | ⟨_, member⟩)
    · rfl
    · exact pieces_text plain line p member
  | tag start body quoted =>
    cases quoted with
    | true =>
      rw [(scan_writeClose_quoted word start body line).1]
      simp [stop]
    | false =>
      -- The tag that is open there ends with this one, and its bracket is part of it.
      have front : Skips ['<', '/'] := skips_of_plain (by simp)
      have skipped := (front.append (skips_word word)) start body line ['>']
      change scanFrom _ line (writeClose close) = _ at skipped
      rw [skipped]
      exact pieces_bracket (by simp) start _
  | tagEscape start body =>
    rw [(scan_writeClose_quoted word start body line).2]
    simp [stop]

/-! ### Closing tags behind content -/

/-- Whether the case of a closing tag is lost where the scanner is: it is scanned as a tag, or
dropped with the comment that it stands in, or it stands in quotes that are never closed. -/
def Mode.dropsCase (keep : Bool) : Mode → Bool
  | .text _ => true
  | .comment _ => !keep
  | .escape => false
  | .tag _ _ quoted => quoted
  | .tagEscape _ _ => true

/-- The case of a closing tag is lost behind the content: the scanner has stopped, or it is where
this is so. -/
def DropsCase (keep : Bool) (content : List Char) : Prop :=
  ∀ line, (∃ pieces e, ∀ rest,
    scanFrom (.text false) line (content ++ rest) = ⟨pieces, .fault e⟩) ∨
  ∃ pieces mode line', mode.dropsCase keep = true ∧ ∀ rest,
    scanFrom (.text false) line (content ++ rest) = (scanFrom mode line' rest).behind pieces

/-- The content closes no span but those that it opens. -/
def ClosesOwn (content : List Char) : Prop :=
  ∀ line, closesOwn (scanFrom (.text false) line content).pieces = true

variable {close' : String} {content : List Char}

/-- In text, a closing tag is scanned as the name in upper case. -/
theorem scan_writeClose (word : IsWord close.toList) (fresh : Bool) (line : Nat) :
    scanFrom (.text fresh) line (writeClose close) =
      ⟨[.markup line (.closing (Text.upper close))], .finish line⟩ := by
  have slash : Skips ['/'] := skips_of_plain (by simp)
  have skips : Skips ('/' :: close.toList) := slash.append (skips_word word.2)
  have flat : ('/' :: close.toList).count '\n' = 0 := by
    rw [List.count_eq_zero]
    intro member
    rcases List.mem_cons.mp member with same | member
    · cases same
    · exact absurd (word.2 '\n' member) (by decide)
  rw [writeClose, scan_markup skips (Markup.parse_close word)]
  change Scanned.cons _ ⟨[], .finish (line + ('/' :: close.toList).count '\n')⟩ = _
  rw [flat]
  rfl

theorem run_behind {s s' : Scanned} (same : ∀ b, run keep b s = run keep b s')
    (pieces : List Piece) (b : Builder) :
    run keep b (s.behind pieces) = run keep b (s'.behind pieces) := by
  induction pieces generalizing b with
  | nil => exact same b
  | cons p pieces ih =>
    cases stepped : b.step keep p with
    | error e => simp [run, Scanned.behind, stepped, bind, Except.bind]
    | ok b' =>
      change run keep b ((s.behind pieces).cons p) = run keep b ((s'.behind pieces).cons p)
      rw [run_cons stepped, run_cons stepped]
      exact ih b'

/-- The case of a closing tag does not matter where it is lost. -/
theorem run_writeClose (word : IsWord close.toList) (word' : IsWord close'.toList)
    (same : Text.sameLetters close close' = true) {mode : Mode}
    (drops : mode.dropsCase keep = true) (line : Nat) (b : Builder) :
    run keep b (scanFrom mode line (writeClose close)) =
      run keep b (scanFrom mode line (writeClose close')) := by
  cases mode with
  | text fresh => rw [scan_writeClose word, scan_writeClose word', Text.upper_congr same]
  | comment body =>
    obtain rfl : keep = false := by
      simpa [Mode.dropsCase] using drops
    obtain ⟨text, scanned⟩ := scan_writeClose_comment word.2 body line
    obtain ⟨text', scanned'⟩ := scan_writeClose_comment word'.2 body line
    rw [scanned, scanned']
    rfl
  | escape => cases drops
  | tag start body quoted =>
    obtain rfl : quoted = true := drops
    rw [(scan_writeClose_quoted word.2 start body line).1,
      (scan_writeClose_quoted word'.2 start body line).1]
  | tagEscape start body =>
    rw [(scan_writeClose_quoted word.2 start body line).2,
      (scan_writeClose_quoted word'.2 start body line).2]

/-- The case of a closing tag does not matter behind content where it is lost, or that does not
close the tag itself. -/
theorem run_content (word : IsWord close.toList) (word' : IsWord close'.toList)
    (same : Text.sameLetters close close' = true) (inside : b.stack ≠ [])
    (kept : DropsCase keep content ∨ ClosesOwn content) (line : Nat) (ts : List Token) :
    run keep b (scanFrom (.text false) line (content ++ writeClose close)) = .ok ts ↔
      run keep b (scanFrom (.text false) line (content ++ writeClose close')) = .ok ts := by
  rcases kept with drops | own
  · rcases drops line with ⟨pieces, e, stops⟩ | ⟨pieces, mode, line', drops, moves⟩
    · rw [stops, stops]
    · rw [moves, moves, run_behind (run_writeClose word word' same drops line')]
  · rcases scan_cut content (.text false) line with
      ⟨pieces, e, stops⟩ | ⟨pieces, mode, line', moves⟩
    · rw [stops, stops]
    · rw [moves, moves]
      by_cases back : ∃ fresh, mode = .text fresh
      · obtain ⟨fresh, rfl⟩ := back
        rw [run_behind (run_writeClose word word' same rfl line')]
      · -- The closing tag is swallowed, so the span is never closed.
        have elsewhere : ∀ fresh, mode ≠ .text fresh := fun fresh here => back ⟨fresh, here⟩
        have own := own line
        rw [← List.append_nil content, moves, Scanned.behind] at own
        have fails : ∀ {close : String}, IsWord close.toList → ∃ e,
            run keep b ((scanFrom mode line' (writeClose close)).behind pieces) = .error e :=
          fun word => run_of_closesOwn
            (closesOwn_append (closesOwn_of_append own) (scan_swallowed word.2 elsewhere line'))
            inside
        obtain ⟨e, failed⟩ := fails word
        obtain ⟨e', failed'⟩ := fails word'
        rw [failed, failed']
        simp

/-! ### The first token -/

namespace Builder

variable {p : Token → Prop}

/-- The tokens of the outermost level, last first. -/
def outer (b : Builder) : List Token :=
  match b.stack.getLast? with
  | none => b.tokens
  | some frame => frame.before

/-- The first token of the tree has a property: it is there already, or it is the outermost span,
which has the property whatever its content will be. -/
def Begins (p : Token → Prop) (b : Builder) : Prop :=
  (∃ t, b.outer.getLast? = some t ∧ p t) ∨
    ∃ frame, b.stack.getLast? = some frame ∧ frame.before = [] ∧
      ∀ content, p (.span frame.tag content)

/-- Tokens that are added do not change the first one. -/
theorem Begins.grow {extra : List Token} (begins : b.Begins p) (stack : b'.stack = b.stack)
    (tokens : b'.tokens = extra ++ b.tokens) : b'.Begins p := by
  rw [Begins, outer] at begins ⊢
  rw [stack, tokens]
  refine begins.imp_left ?_
  rintro ⟨t, first, has⟩
  refine ⟨t, ?_, has⟩
  split
  · next none =>
    rw [none] at first
    rw [List.getLast?_append, first]
    rfl
  · next frame some =>
    rw [some] at first
    exact first

theorem exists_flush_tokens (b : Builder) : ∃ extra, b.flush.tokens = extra ++ b.tokens := by
  rw [flush]
  split
  · exact ⟨[], rfl⟩
  · exact ⟨[_], rfl⟩

theorem Begins.push (begins : b.Begins p) (t : Token) : (b.push t).Begins p := by
  obtain ⟨extra, tokens⟩ := b.exists_flush_tokens
  have pushed : (b.push t).tokens = (t :: extra) ++ b.tokens := by
    rw [List.cons_append, ← tokens]
    rfl
  exact begins.grow flush_stack pushed

theorem Begins.enter (begins : b.Begins p) (tag : Tag) : (b.enter tag).Begins p := by
  obtain ⟨extra, tokens⟩ := b.exists_flush_tokens
  have begins : b.flush.Begins p := begins.grow flush_stack tokens
  rw [Begins, outer] at begins ⊢
  cases top : b.flush.stack with
  | nil =>
    -- The new span is the outermost one, and all tokens stand before it.
    rw [top] at begins
    rcases begins with first | ⟨_, none, _⟩
    · simp only [Builder.enter, top]
      exact .inl first
    · cases none
  | cons frame stack =>
    rw [top] at begins
    simp only [Builder.enter, top, List.getLast?_cons_cons]
    exact begins

/-- Whatever a builder takes in, the first token stays. -/
theorem Begins.step {piece : Piece} (begins : b.Begins p) (stepped : b.step keep piece = .ok b') :
    b'.Begins p := by
  cases piece with
  | char c =>
    cases stepped
    exact begins
  | comment body =>
    cases stepped
    split
    · exact begins.push _
    · exact begins
  | markup line m =>
    cases m with
    | token t =>
      cases stepped
      exact begins.push t
    | opening spec attrs =>
      rw [Builder.step] at stepped
      split at stepped
      · cases stepped
      · cases stepped
        exact begins.enter _
    | closing name =>
      rw [Builder.step] at stepped
      split at stepped
      · cases stepped
      · next frame stack top =>
        split at stepped
        · cases stepped
          rw [Begins, outer, top] at begins
          cases stack with
          | nil =>
            -- The outermost span is complete, behind the tokens that stand before it.
            rcases begins with ⟨t, first, has⟩ | ⟨outermost, same, none, has⟩
            · refine .inl ⟨t, ?_, has⟩
              change List.getLast? (_ :: frame.before) = some t
              change frame.before.getLast? = some t at first
              rw [List.getLast?_cons, first]
              rfl
            · obtain rfl : frame = outermost := Option.some.inj same
              refine .inl ⟨_, ?_, has b.flush.tokens.reverse⟩
              change List.getLast? (_ :: frame.before) = _
              rw [none]
              rfl
          | cons next stack =>
            rw [List.getLast?_cons_cons] at begins
            exact begins
        · cases stepped

/-- The first token of a tree is the one that was begun with. -/
theorem Begins.exists_cons {s : Scanned} {ts : List Token} (begins : b.Begins p)
    (ran : Script.run keep b s = .ok ts) : ∃ t rest, ts = t :: rest ∧ p t := by
  obtain ⟨pieces, ending⟩ := s
  induction pieces generalizing b with
  | nil =>
    change b.finish ending = _ at ran
    cases ending with
    | fault e => cases ran
    | finish line =>
      rw [finish] at ran
      split at ran
      · next top =>
        cases ran
        obtain ⟨extra, tokens⟩ := b.exists_flush_tokens
        have begins : b.flush.Begins p := begins.grow flush_stack tokens
        rw [Begins, outer, flush_stack, top] at begins
        rcases begins with ⟨t, first, has⟩ | ⟨_, none, _⟩
        · obtain ⟨rest, reversed⟩ := List.head?_eq_some_iff.mp (List.head?_reverse.trans first)
          exact ⟨t, rest, reversed, has⟩
        · cases none
      · cases ran
  | cons piece pieces ih =>
    cases stepped : b.step keep piece with
    | error e => simp [Script.run, stepped, bind, Except.bind] at ran
    | ok b' =>
      refine ih (begins.step stepped) ?_
      rw [← ran]
      exact (run_cons stepped ⟨pieces, ending⟩).symm

end Builder

/-! ### Scripts of one tag -/

/-- Whether the tag of this name encloses content. -/
def isPaired (name : String) : Bool :=
  (TagSpec.ofName? name).any TagSpec.paired

/-- The script of one tag: the tag under the names that it is given and with its values as they are
printed, the content, and the closing tag if there has to be one. -/
def oneTag (name : String) (attrs : List (String × String)) (content close : String) : String :=
  String.ofList ('<' :: (Markup.writeInside name attrs ++ '>' ::
    (content.toList ++ if isPaired name then writeClose close else [])))

/-- The tag of a token. -/
def tag? : Token → Option Tag
  | .mark tag => some tag
  | .span tag _ => some tag
  | _ => none

/-- The token stands for a tag with attributes: it is a break, which has none, or a token of the tag
with these attributes in the order of its row, each of them once. -/
def StandsFor (name : String) (attrs : List (String × String)) (t : Token) : Prop :=
  (attrs = [] ∧ (Text.upper name = "BR" ∧ t = .lineBreak ∨
    Text.upper name = "PG" ∧ t = .pageBreak)) ∨
  ∃ spec out, TagSpec.ofName? name = some spec ∧ spec.Arranged attrs out ∧
    tag? t = some ⟨spec.name, out⟩

variable {name name' : String} {attrs attrs' : List (String × String)} {ts : List Token}

/-- A script of one tag is compiled if its tag is read, and then from the markup of the tag on. -/
theorem compile_oneTag_eq_ok (worded : Worded name attrs) (content close : String) :
    compile keep (oneTag name attrs content close) = .ok ts ↔
      ∃ m, Markup.parse (Markup.writeInside name attrs) = .ok m ∧
        run keep {} ((scanFrom (.text false) (1 + (Markup.writeInside name attrs).count '\n')
          (content.toList ++ if isPaired name then writeClose close else [])).cons
            (.markup 1 m)) = .ok ts := by
  have scanned := scan_bracket (skips_writeInside worded.tag worded.keys) true 1
    (content.toList ++ if isPaired name then writeClose close else [])
  change run keep {} (scan _) = _ ↔ _
  rw [scan, oneTag, String.toList_ofList, scanned]
  cases Markup.parse (Markup.writeInside name attrs) with
  | error fault =>
    refine iff_of_false ?_ (by simp)
    intro ran
    cases ran
  | ok m => simp

/-- A script is not compiled if its tag is not read. -/
theorem exists_compile_error (worded : Worded name attrs) (keep : Bool) (content close : String)
    (unread : ∀ m, Markup.parse (Markup.writeInside name attrs) ≠ .ok m) :
    ∃ e, compile keep (oneTag name attrs content close) = .error e := by
  cases compiled : compile keep (oneTag name attrs content close) with
  | error e => exact ⟨e, rfl⟩
  | ok ts =>
    obtain ⟨m, read, _⟩ := (compile_oneTag_eq_ok worded content close).mp compiled
    exact (unread m read).elim

/-- The markup of a tag begins the tree with a token that stands for the tag, and opens a span if
the tag encloses content. -/
theorem begins_markup {m : Markup} (worded : Worded name attrs)
    (read : Markup.parse (Markup.writeInside name attrs) = .ok m) (keep : Bool) (line : Nat) :
    ∃ b, Builder.step keep {} (.markup line m) = .ok b ∧ b.Begins (StandsFor name attrs) ∧
      (isPaired name = true → b.stack ≠ []) := by
  rcases Markup.parse_cases worded read with ⟨none, isBreak⟩ | ⟨spec, out, found, arranged, rfl⟩
  · obtain ⟨t, rfl, stands⟩ : ∃ t, m = .token t ∧ StandsFor name attrs t := by
      rcases isBreak with ⟨named, rfl⟩ | ⟨named, rfl⟩
      · exact ⟨_, rfl, .inl ⟨none, .inl ⟨named, rfl⟩⟩⟩
      · exact ⟨_, rfl, .inl ⟨none, .inr ⟨named, rfl⟩⟩⟩
    have single : isPaired name = false := by
      rw [isPaired, ← TagSpec.ofName?_congr (Text.sameLetters_upper name)]
      rcases isBreak with ⟨named, _⟩ | ⟨named, _⟩ <;> rw [named] <;> rfl
    refine ⟨_, rfl, .inl ⟨t, rfl, stands⟩, ?_⟩
    intro paired
    cases single.symm.trans paired
  · have stands : ∀ t, tag? t = some ⟨spec.name, out⟩ → StandsFor name attrs t := fun t tagged =>
      .inr ⟨spec, out, found, arranged, tagged⟩
    have same : isPaired name = spec.paired := by
      rw [isPaired, found]
      rfl
    cases paired : spec.paired with
    | true =>
      refine ⟨_, rfl, .inr ⟨⟨⟨spec.name, out⟩, []⟩, rfl, rfl, fun content => stands _ rfl⟩, ?_⟩
      exact fun _ => List.cons_ne_nil _ _
    | false =>
      refine ⟨_, rfl, .inl ⟨.mark ⟨spec.name, out⟩, rfl, stands _ rfl⟩, ?_⟩
      intro paired'
      cases (same.trans paired).symm.trans paired'

/-- Two spellings of a tag are compiled to the same tokens, if at all. -/
theorem compile_oneTag_respelled {content close close' : String} (worded : Worded name attrs)
    (same : Text.sameLetters name name' = true) (respelled : Respelled name attrs attrs')
    (closes : Text.sameLetters name close = true) (closes' : Text.sameLetters name close' = true)
    (kept : close = close' ∨ DropsCase keep content.toList ∨ ClosesOwn content.toList) :
    compile keep (oneTag name attrs content close) = .ok ts ↔
      compile keep (oneTag name' attrs' content close') = .ok ts := by
  have paired : isPaired name' = isPaired name := by
    rw [isPaired, isPaired, TagSpec.ofName?_congr same]
  rw [compile_oneTag_eq_ok worded, compile_oneTag_eq_ok (worded.respelled same respelled),
    ← respelled.count_eq worded same, paired]
  refine exists_congr fun m => ?_
  rw [← Markup.parse_respelled worded same respelled]
  refine and_congr_right fun read => ?_
  obtain ⟨b, stepped, _, opened⟩ := begins_markup worded read keep 1
  rw [run_cons stepped, run_cons stepped]
  split
  · next paired =>
    rcases kept with rfl | kept
    · rfl
    · -- The closing tags are words, because the name of the tag is one.
      obtain ⟨⟨filled, _⟩, _⟩ := (Markup.parse_eq_ok worded).mp read
      have word : ∀ {other : String}, Text.sameLetters name other = true →
          IsWord other.toList := by
        intro other same
        refine ⟨?_, Text.forall_of_sameLetters Markup.isWordChar_toLower same worded.tag⟩
        rw [ne_eq, String.toList_eq_nil_iff, ← Text.eq_empty_of_sameLetters same]
        exact filled
      have same' : Text.sameLetters close close' = true := by
        rw [← Text.sameLetters_congr closes', Text.sameLetters_comm]
        exact closes
      exact run_content (word closes) (word closes') same' (opened paired) kept _ ts
  · rfl

/-- A tag may be spelled in any way. Its name, the names of its attributes, values that are words
and the name in the closing tag may stand in any case, and the attributes in any order: two such
scripts both fail to compile, or both are compiled to the same tokens. The first of these stands for
the tag, with the attributes that are given in the order of the row and each of them once. An
attribute that is given twice, that the tag does not know or whose value is not of its kind makes
both fail.

The content is the same in both. For the tokens to be the same it may be anything if the closing tag
is, and otherwise whatever does not close the tag itself, or leaves the scanner where the case of the
closing tag is lost: in text, so that it is a tag, in a comment that is dropped, or in quotes. -/
theorem spelling_irrelevant (keep : Bool) {name name' content close close' : String}
    {attrs attrs' : List (String × String)} (worded : Worded name attrs)
    (same : Text.sameLetters name name' = true) (respelled : Respelled name attrs attrs')
    (closes : Text.sameLetters name close = true) (closes' : Text.sameLetters name close' = true) :
    (close = close' ∨ DropsCase keep content.toList ∨ ClosesOwn content.toList →
      (∃ e e', compile keep (oneTag name attrs content close) = .error e ∧
        compile keep (oneTag name' attrs' content close') = .error e') ∨
      ∃ ts, compile keep (oneTag name attrs content close) = .ok ts ∧
        compile keep (oneTag name' attrs' content close') = .ok ts) ∧
    (∀ ts, compile keep (oneTag name attrs content close) = .ok ts →
      ∃ t rest, ts = t :: rest ∧ StandsFor name attrs t) ∧
    (Defect name attrs → ∃ e e', compile keep (oneTag name attrs content close) = .error e ∧
      compile keep (oneTag name' attrs' content close') = .error e') := by
  refine ⟨?agree, ?stands, ?defect⟩
  case agree =>
    intro kept
    have both : ∀ ts, compile keep (oneTag name attrs content close) = .ok ts ↔
        compile keep (oneTag name' attrs' content close') = .ok ts := fun ts =>
      compile_oneTag_respelled worded same respelled closes closes' kept
    cases one : compile keep (oneTag name attrs content close) with
    | ok ts => exact .inr ⟨ts, rfl, (both ts).mp one⟩
    | error e =>
      cases two : compile keep (oneTag name' attrs' content close') with
      | ok ts => cases one.symm.trans ((both ts).mpr two)
      | error e' => exact .inl ⟨e, e', rfl, rfl⟩
  case stands =>
    intro ts compiled
    obtain ⟨m, read, ran⟩ := (compile_oneTag_eq_ok worded content close).mp compiled
    obtain ⟨b, stepped, begins, _⟩ := begins_markup worded read keep 1
    rw [run_cons stepped] at ran
    exact begins.exists_cons ran
  case defect =>
    intro defect
    have unread : ∀ m, Markup.parse (Markup.writeInside name attrs) ≠ .ok m := fun m read =>
      Markup.not_defect_of_parse worded read defect
    obtain ⟨e, failed⟩ := exists_compile_error worded keep content close unread
    obtain ⟨e', failed'⟩ := exists_compile_error (worded.respelled same respelled) keep content
      close' fun m read => unread m ((Markup.parse_respelled worded same respelled).mpr read)
    exact ⟨e, e', failed, failed'⟩

/-- A tag with a word and a number, in two spellings. -/
theorem spelling_irrelevant_div :
    compile false (oneTag "div" [("padRight", "04"), ("Align", "center")] "x" "Div") =
        .ok [.span ⟨"DIV", [("ALIGN", "CENTER"), ("PADRIGHT", "4")]⟩ [.text "x"]] ∧
      compile false (oneTag "DIV" [("ALIGN", "Center"), ("padright", "04")] "x" "dIV") =
        .ok [.span ⟨"DIV", [("ALIGN", "CENTER"), ("PADRIGHT", "4")]⟩ [.text "x"]] := by
  have compiled : compile false (oneTag "div" [("padRight", "04"), ("Align", "center")] "x" "Div") =
      .ok [.span ⟨"DIV", [("ALIGN", "CENTER"), ("PADRIGHT", "4")]⟩ [.text "x"]] := by
    decide +kernel
  have word : ∀ {s : String}, s.toList.all Markup.isWordChar = true →
      ∀ c ∈ s.toList, Markup.isWordChar c = true := List.all_eq_true.mp
  have worded : Worded "div" [("padRight", "04"), ("Align", "center")] := by
    refine ⟨word (by decide), ?_⟩
    rw [List.forall_mem_cons, List.forall_mem_singleton]
    exact ⟨word (by decide), word (by decide)⟩
  have takes : TakesWord "div" "Align" :=
    ⟨_, ⟨"ALIGN", _⟩, ["LEFT", "CENTER", "RIGHT"], rfl, List.mem_cons_self, by decide, rfl⟩
  have respelled : Respelled "div" [("padRight", "04"), ("Align", "center")]
      [("ALIGN", "Center"), ("padright", "04")] :=
    ⟨[("Align", "center"), ("padRight", "04")], .swap _ _ _,
      .cons ⟨by decide, .inr ⟨takes, by decide⟩⟩ (.cons ⟨by decide, .inl rfl⟩ .nil)⟩
  have text : DropsCase false "x".toList := fun line =>
    .inr ⟨[.char 'x'], .text false, line, rfl, fun _ => rfl⟩
  obtain ⟨agree, _, _⟩ := spelling_irrelevant false worded
    (by decide : Text.sameLetters "div" "DIV" = true) respelled
    (by decide : Text.sameLetters "div" "Div" = true)
    (by decide : Text.sameLetters "div" "dIV" = true)
  rcases agree (.inr (.inl text)) with ⟨_, _, failed, _⟩ | ⟨ts, one, two⟩
  · cases compiled.symm.trans failed
  · cases compiled.symm.trans one
    exact ⟨compiled, two⟩

/-- The tokens need not be the same for every content. One that closes the tag itself and then
protects the bracket of the closing tag makes text of it, which keeps its case. -/
theorem spelling_swallowed : ¬∀ (keep : Bool) (name name' content close close' : String)
    (attrs attrs' : List (String × String)), Worded name attrs →
    Text.sameLetters name name' = true → Respelled name attrs attrs' →
    Text.sameLetters name close = true → Text.sameLetters name close' = true →
    (∃ e e', compile keep (oneTag name attrs content close) = .error e ∧
        compile keep (oneTag name' attrs' content close') = .error e') ∨
      ∃ ts, compile keep (oneTag name attrs content close) = .ok ts ∧
        compile keep (oneTag name' attrs' content close') = .ok ts := by
  intro agree
  have upper : compile false (oneTag "A" [] "</A>\\" "A") =
      .ok [.span ⟨"A", []⟩ [], .text "</A>"] := by
    decide +kernel
  have lower : compile false (oneTag "A" [] "</A>\\" "a") =
      .ok [.span ⟨"A", []⟩ [], .text "</a>"] := by
    decide +kernel
  have worded : Worded "A" [] := ⟨List.all_eq_true.mp (by decide), by simp⟩
  rcases agree false "A" "A" "</A>\\" "A" "a" [] [] worded (by decide) ⟨[], .nil, .nil⟩ (by decide)
    (by decide) with ⟨_, _, failed, _⟩ | ⟨ts, one, two⟩
  · cases upper.symm.trans failed
  · cases upper.symm.trans one
    simpa using lower.symm.trans two

end NovelChart.Script
