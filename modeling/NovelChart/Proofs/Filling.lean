import Mathlib.Logic.Function.Basic
import NovelChart.Proofs.Address
import NovelChart.Proofs.Block
import NovelChart.Proofs.Segment

/-!
# New texts for many segments

New texts for some segments of a block are put in one by one, from the last to the first. No
replacement moves a segment in front of it, so every segment is met where it was before any of them
was replaced. Afterwards the texts of the block are the old ones, with each new text in place of the
one that it replaces: without one return at the end of each line, without line feeds at either end,
and left out if nothing remains.

## Main definitions

* `Text.settled?`: what is left of a new text, if anything
* `Text.renewed`: what stands in place of an old text
* `Segment.fill`: tokens with new texts for some of their segments

## Main results

* `Segment.texts_plainTokens`: plain tokens have one text, the settled one, or none
* `Segment.texts_fill`, `Segment.outlineAll_fill`: the texts of filled tokens, and the rest
* `Segment.fill_update`: one more replacement, in front of all others
* `TextBlock.length_segments_le`: a canonical block has no more segments than bytes
-/

namespace NovelChart

/-! ### Settled texts -/

namespace Text

/-- Characters without the line feeds at either end. -/
def dropFeeds (cs : List Char) : List Char :=
  ((cs.dropWhile (· == '\n')).reverse.dropWhile (· == '\n')).reverse

/-- A text without one return at the end of each line, and without line feeds at either end. -/
def settled (text : String) : String :=
  String.ofList
    (dropFeeds (List.intercalate ['\n'] ((pieces '\n' text.toList).map dropReturn)))

/-- The settled text, if anything is left. -/
def settled? (text : String) : Option String :=
  if (settled text).isEmpty then none else some (settled text)

/-- The texts that stand in place of an old one: itself, or what is left of a new one. -/
def renewed (old : String) : Option String → List String
  | some new => (settled? new).toList
  | none => [old]

variable {lead core trail : List Char}

theorem dropWhile_feeds (feeds : ∀ c ∈ lead, c = '\n') :
    (lead ++ core).dropWhile (· == '\n') = core.dropWhile (· == '\n') := by
  refine List.dropWhile_append_of_pos fun c member => ?_
  rw [feeds c member]
  rfl

theorem dropFeeds_feeds (feeds : ∀ c ∈ lead, c = '\n') : dropFeeds lead = [] := by
  rw [dropFeeds, ← List.append_nil lead, dropWhile_feeds feeds]
  rfl

/-- A text that neither begins nor ends with a line feed is what is left. -/
theorem dropFeeds_between (feeds : ∀ c ∈ lead, c = '\n') (feeds' : ∀ c ∈ trail, c = '\n')
    (first : ∃ c rest, core = c :: rest ∧ c ≠ '\n')
    (last : ∃ front c, core = front ++ [c] ∧ c ≠ '\n') :
    dropFeeds (lead ++ (core ++ trail)) = core := by
  obtain ⟨c, rest, begins, other⟩ := first
  obtain ⟨front, d, ends, other'⟩ := last
  have front_eq : (core ++ trail).dropWhile (· == '\n') = core ++ trail := by
    rw [begins, List.cons_append, List.dropWhile_cons_of_neg (by simpa using other)]
  have back_eq : core.reverse.dropWhile (· == '\n') = core.reverse := by
    rw [ends, List.reverse_append, List.reverse_singleton, List.singleton_append,
      List.dropWhile_cons_of_neg (by simpa using other')]
  rw [dropFeeds, dropWhile_feeds feeds, front_eq, List.reverse_append,
    dropWhile_feeds fun c member => feeds' c (List.mem_reverse.mp member), back_eq,
    List.reverse_reverse]

end Text

/-! ### Plain tokens -/

theorem flatMap_lineTokens (line : List Char) :
    (lineTokens line).flatMap Segment.tokenText = line := by
  rw [lineTokens]
  cases line with
  | nil => rfl
  | cons c cs => simp [Segment.tokenText]

theorem intercalate_cons {α : Type} (mark : α) (line : List α) (rest : List (List α)) :
    List.intercalate [mark] (line :: rest) = line ++ rest.flatMap (mark :: ·) := by
  induction rest generalizing line with
  | nil => simp
  | cons next rest ih =>
    rw [List.intercalate_cons_cons, ih, List.flatMap_cons]
    simp

/-- The tokens of plain text spell its lines. -/
theorem flatMap_plainTokens (text : String) : (plainTokens text).flatMap Segment.tokenText =
    List.intercalate ['\n'] ((Text.pieces '\n' text.toList).map Text.dropReturn) := by
  rw [plainTokens, ← List.map_map]
  cases (Text.pieces '\n' text.toList).map Text.dropReturn with
  | nil => rfl
  | cons line rest =>
    rw [List.map_cons, intercalate_cons]
    dsimp only
    rw [List.flatMap_append, flatMap_lineTokens]
    congr 1
    induction rest with
    | nil => rfl
    | cons next rest ih =>
      simp only [List.map_cons, List.flatMap_cons, List.flatMap_append, flatMap_lineTokens, ih]
      rfl

theorem dropReturn_subset (line : List Char) : Text.dropReturn line ⊆ line := by
  rw [Text.dropReturn]
  split
  · exact List.dropLast_subset line
  · exact List.Subset.refl line

/-- Plain text makes line breaks, and runs of one line that are not empty. -/
theorem mem_plainTokens {text : String} {t : Token} (member : t ∈ plainTokens text) :
    t = .lineBreak ∨ ∃ c cs, t = .text (String.ofList (c :: cs)) ∧ '\n' ∉ c :: cs ∧
      c :: cs ⊆ text.toList := by
  have line : ∀ line ∈ (Text.pieces '\n' text.toList).map (lineTokens ∘ Text.dropReturn),
      t ∈ line → ∃ c cs, t = .text (String.ofList (c :: cs)) ∧ '\n' ∉ c :: cs ∧
        c :: cs ⊆ text.toList := by
    intro line inside member
    obtain ⟨piece, cut, rfl⟩ := List.mem_map.mp inside
    have within := dropReturn_subset piece
    rw [Function.comp_apply, lineTokens] at member
    cases eq : Text.dropReturn piece with
    | nil =>
      rw [eq] at member
      cases member
    | cons c cs =>
      rw [eq] at member within
      exact ⟨c, cs, List.mem_singleton.mp member,
        fun feed => Text.not_mem_of_mem_pieces cut (within feed),
        List.Subset.trans within (Text.subset_of_mem_pieces cut)⟩
  rw [plainTokens] at member
  split at member
  · cases member
  · next first rest lines =>
    rw [lines] at line
    rcases List.mem_append.mp member with inside | inside
    · exact .inr (line first List.mem_cons_self inside)
    · obtain ⟨next, among, inside⟩ := List.mem_flatMap.mp inside
      rcases List.mem_cons.mp inside with rfl | inside
      · exact .inl rfl
      · exact .inr (line next (List.mem_cons_of_mem _ among) inside)

theorem isPlain_plainTokens (text : String) : ∀ t ∈ plainTokens text, t.isPlain = true := by
  intro t member
  rcases mem_plainTokens member with rfl | ⟨c, cs, rfl, _⟩
  · rfl
  · rfl

namespace Segment

variable {ts : List Token} {seg : Segment}

/-- The text of line breaks is line feeds. -/
theorem eq_of_mem_breaks {s : List Token} (breaks : ∀ t ∈ s, t = .lineBreak) :
    ∀ c ∈ s.flatMap tokenText, c = '\n' := by
  intro c member
  obtain ⟨t, inside, member⟩ := List.mem_flatMap.mp member
  rw [breaks t inside] at member
  exact List.mem_singleton.mp member

/-- Plain tokens have one text, the settled one, or none. -/
theorem texts_plainTokens (text : String) :
    texts (plainTokens text) = (Text.settled? text).toList.map some := by
  rcases exists_cut (isPlain_plainTokens text) with breaks | ⟨lead, core, trail, cut⟩
  · have nothing : Text.settled text = "" := by
      rw [Text.settled, ← flatMap_plainTokens, Text.dropFeeds_feeds (eq_of_mem_breaks breaks),
        String.ofList_nil]
    rw [texts_breaks breaks, Text.settled?, nothing]
    rfl
  · -- The segment begins and ends with a run that is not empty and has no line feed.
    have run : ∀ run, Token.text run ∈ core →
        ∃ c cs, run.toList = c :: cs ∧ '\n' ∉ c :: cs := by
      intro run member
      have inside : Token.text run ∈ plainTokens text := by
        rw [cut.whole]
        exact List.mem_append_right _ (List.mem_append_left _ member)
      rcases mem_plainTokens inside with absurd | ⟨c, cs, same, flat, _⟩
      · cases absurd
      · rw [Token.text.injEq] at same
        exact ⟨c, cs, by rw [same, String.toList_ofList], flat⟩
    have first : ∃ c rest, core.flatMap tokenText = c :: rest ∧ c ≠ '\n' := by
      obtain ⟨begin, rest, same⟩ := cut.first
      obtain ⟨c, cs, chars, flat⟩ := run begin (same ▸ List.mem_cons_self)
      refine ⟨c, cs ++ rest.flatMap tokenText, ?_, ?_⟩
      · rw [same, List.flatMap_cons, tokenText, chars, List.cons_append]
      · rintro rfl
        exact flat List.mem_cons_self
    have last : ∃ front c, core.flatMap tokenText = front ++ [c] ∧ c ≠ '\n' := by
      obtain ⟨front, ending, same⟩ := cut.last
      obtain ⟨c, cs, chars, flat⟩ := run ending (same ▸ List.mem_append_right _ List.mem_cons_self)
      refine ⟨front.flatMap tokenText ++ (c :: cs).dropLast, (c :: cs).getLast (by simp), ?_, ?_⟩
      · rw [same, List.flatMap_append, List.append_assoc, List.dropLast_concat_getLast,
          List.flatMap_singleton, tokenText, chars]
      · intro feed
        exact flat (feed ▸ List.getLast_mem _)
    have settled : Text.settled text = plainText core := by
      rw [Text.settled, ← flatMap_plainTokens, cut.whole, List.flatMap_append, List.flatMap_append,
        Text.dropFeeds_between (eq_of_mem_breaks cut.lead) (eq_of_mem_breaks cut.trail) first last,
        plainText]
    have filled : (plainText core).isEmpty = false := by
      obtain ⟨c, rest, same, _⟩ := first
      rw [Bool.eq_false_iff, ne_eq, String.isEmpty_iff, plainText, same]
      simp
    rw [texts_cut (isPlain_plainTokens text) cut, Text.settled?, settled, filled]
    rfl

/-! ### Filling -/

/-- Tokens with new texts for some of their segments, which are numbered from a number on. The
last one is replaced first, so that all of them are where they were. -/
def fillFrom (f : Nat → Option String) (ts : List Token) : Nat → List Segment → List Token
  | _, [] => ts
  | n, seg :: rest =>
    match f n with
    | some text => replace (fillFrom f ts (n + 1) rest) seg (plainTokens text)
    | none => fillFrom f ts (n + 1) rest

/-- Tokens with new texts for some of their segments. -/
def fill (f : Nat → Option String) (ts : List Token) : List Token :=
  fillFrom f ts 0 (ofTokens ts)

/-- The texts that stand in place of the text of a segment. -/
def newTexts : Option String → Option String → List (Option String)
  | some text, _ => (Text.settled? text).toList.map some
  | none, old => [old]

theorem newTexts_some (new : Option String) (old : String) :
    newTexts new (some old) = (Text.renewed old new).map some := by
  cases new <;> rfl

variable {f g : Nat → Option String} {n : Nat} {front segs : List Segment}

theorem fillFrom_cons_none (skipped : f n = none) :
    fillFrom f ts n (seg :: segs) = fillFrom f ts (n + 1) segs := by
  rw [fillFrom, skipped]

theorem fillFrom_cons_some {text : String} (new : f n = some text) :
    fillFrom f ts n (seg :: segs) =
      replace (fillFrom f ts (n + 1) segs) seg (plainTokens text) := by
  rw [fillFrom, new]

/-- Filling from a segment on leaves the segments in front of it alone, and changes the texts from
there on one by one. -/
theorem ofTokens_fillFrom (found : ofTokens ts = front ++ segs) :
    ∃ more, ofTokens (fillFrom f ts n segs) = front ++ more ∧
      front.map (text? (fillFrom f ts n segs)) = front.map (text? ts) ∧
      more.map (text? (fillFrom f ts n segs)) =
        (segs.zipIdx n).flatMap fun (seg, k) => newTexts (f k) (text? ts seg) := by
  induction segs generalizing front n with
  | nil => exact ⟨[], found, rfl, rfl⟩
  | cons seg segs ih =>
    rw [List.append_cons] at found
    obtain ⟨more, segments, kept, changed⟩ := ih found (n := n + 1)
    rw [List.append_assoc, List.singleton_append] at segments
    rw [List.map_append, List.map_append] at kept
    obtain ⟨kept, same⟩ := List.append_inj kept (by simp)
    rw [List.zipIdx_cons, List.flatMap_cons, ← changed]
    dsimp only
    cases new : f n with
    | none =>
      rw [fillFrom_cons_none new]
      refine ⟨seg :: more, segments, kept, ?_⟩
      rw [newTexts, List.map_cons, List.singleton_append, List.singleton_inj.mp same]
    | some text =>
      rw [fillFrom_cons_some new]
      obtain ⟨⟨more', segments'⟩, texts'⟩ :=
        replace_step (isPlain_plainTokens text) _ segments
      rw [texts, segments', List.map_append, texts_plainTokens] at texts'
      obtain ⟨kept', changed'⟩ := List.append_inj texts' (by simp)
      refine ⟨more', segments', kept'.trans kept, ?_⟩
      rw [changed', newTexts]

/-- The texts of filled tokens. -/
theorem texts_fill (f : Nat → Option String) (ts : List Token) : texts (fill f ts) =
    (texts ts).zipIdx.flatMap fun (old, k) => newTexts (f k) old := by
  obtain ⟨more, segments, _, changed⟩ :=
    ofTokens_fillFrom (f := f) (n := 0) (List.nil_append (ofTokens ts)).symm
  rw [List.nil_append] at segments
  rw [texts, fill, segments, changed, texts, List.zipIdx_map, List.flatMap_map]
  rfl

theorem outlineAll_fillFrom (found : ofTokens ts = front ++ segs) :
    Token.outlineAll (fillFrom f ts n segs) = Token.outlineAll ts := by
  induction segs generalizing front n with
  | nil => rfl
  | cons seg segs ih =>
    rw [List.append_cons] at found
    have kept := ih found (n := n + 1)
    cases new : f n with
    | none => rw [fillFrom_cons_none new, kept]
    | some text =>
      obtain ⟨more, segments, _⟩ := ofTokens_fillFrom (f := f) (n := n + 1) found
      rw [fillFrom_cons_some new, outlineAll_replace (isPlain_plainTokens text), kept]
      simp [segments]

/-- Filled tokens have everything that is not text. -/
theorem outlineAll_fill (f : Nat → Option String) (ts : List Token) :
    Token.outlineAll (fill f ts) = Token.outlineAll ts :=
  outlineAll_fillFrom (List.nil_append (ofTokens ts)).symm

theorem fillFrom_append_none (skipped : ∀ k, n ≤ k → k < n + front.length → f k = none) :
    fillFrom f ts n (front ++ segs) = fillFrom f ts (n + front.length) segs := by
  induction front generalizing n with
  | nil => rfl
  | cons seg front ih =>
    rw [List.length_cons] at skipped ⊢
    rw [List.cons_append, fillFrom_cons_none (skipped n (by omega) (by omega)), ih]
    · congr 1
      omega
    · intro k low high
      exact skipped k (by omega) (by omega)

theorem fillFrom_congr (same : ∀ k, n ≤ k → k < n + segs.length → f k = g k) :
    fillFrom f ts n segs = fillFrom g ts n segs := by
  induction segs generalizing n with
  | nil => rfl
  | cons seg segs ih =>
    rw [List.length_cons] at same
    rw [fillFrom, fillFrom, same n (by omega) (by omega), ih]
    intro k low high
    exact same k (by omega) (by omega)

/-- Nothing changes where nothing is new. -/
theorem fill_none (ts : List Token) : fill (fun _ => none) ts = ts := by
  have skipped : fillFrom (fun _ => none) ts 0 (ofTokens ts ++ []) =
      fillFrom (fun _ => none) ts (0 + (ofTokens ts).length) [] :=
    fillFrom_append_none fun _ _ _ => rfl
  rw [List.append_nil] at skipped
  exact skipped

variable {k : Nat}

/-- While nothing up to a segment is filled, the segment is where it was, with its text. -/
theorem getElem?_fill (skipped : ∀ j ≤ k, f j = none) (found : (ofTokens ts)[k]? = some seg) :
    (ofTokens (fill f ts))[k]? = some seg ∧ text? (fill f ts) seg = text? ts seg := by
  obtain ⟨front, back, cut, rfl⟩ := exists_cut_at found
  rw [List.append_cons] at cut
  have started : fill f ts = fillFrom f ts (0 + (front ++ [seg]).length) back := by
    rw [fill, cut, fillFrom_append_none]
    intro j _ high
    rw [List.length_append, List.length_singleton] at high
    exact skipped j (by omega)
  obtain ⟨more, segments, kept, _⟩ :=
    ofTokens_fillFrom cut (f := f) (n := 0 + (front ++ [seg]).length)
  rw [← started] at segments kept
  rw [List.map_append, List.map_append] at kept
  refine ⟨?_, List.singleton_inj.mp (List.append_inj kept (by simp)).2⟩
  rw [segments, List.append_assoc, List.singleton_append]
  simp

/-- One more replacement, in front of all others. -/
theorem fill_update (skipped : ∀ j ≤ k, f j = none) (found : (ofTokens ts)[k]? = some seg)
    (text : String) : fill (Function.update f k (some text)) ts =
      replace (fill f ts) seg (plainTokens text) := by
  obtain ⟨front, back, cut, rfl⟩ := exists_cut_at found
  have behind : fill f ts = fillFrom f ts (0 + front.length + 1) back := by
    rw [fill, cut, fillFrom_append_none, fillFrom_cons_none (skipped _ (by omega))]
    intro j _ high
    exact skipped j (by omega)
  rw [behind, fill, cut, fillFrom_append_none, fillFrom_cons_some]
  · congr 1
    apply fillFrom_congr
    intro j low _
    rw [Function.update_of_ne (by omega)]
  · rw [Nat.zero_add, Function.update_self]
  · intro j _ high
    rw [Function.update_of_ne (by omega)]
    exact skipped j (by omega)

/-! ### How many segments there are -/

variable {e : Encoding}

theorem length_close (path : List Nat) (stretch : Option (Nat × Nat)) :
    (close path stretch).length = if stretch.isSome then 1 else 0 := by
  cases stretch <;> rfl

mutual

theorem length_inside_le (depth : Nat) : ∀ (t : Token) (path : List Nat) (i : Nat) {n : Nat}
    {bytes : List UInt8}, Markup.encodeToken e depth t = .ok (n, bytes) → t.IsCanonical →
      (inside path i t).length ≤ bytes.length
  | .span tag content, path, i, n, bytes, written, canon => by
    simp only [Markup.encodeToken, bind_eq_ok, pure_eq_ok, refuse_eq_ok, Prod.exists,
      Prod.mk.injEq] at written
    obtain ⟨head, _, _, count, body, inner, _, rfl⟩ := written
    have few := length_collect_le (depth + 1) content (path ++ [i]) 0 none inner canon.2
    rw [inside, List.length_append]
    simp only [Option.isSome_none, Bool.false_eq_true, if_false] at few
    omega
  | .text run, _, _, _, _, _, _ => Nat.zero_le _
  | .lineBreak, _, _, _, _, _, _ => Nat.zero_le _
  | .pageBreak, _, _, _, _, _, _ => Nat.zero_le _
  | .comment body, _, _, _, _, _, _ => Nat.zero_le _
  | .mark tag, _, _, _, _, _, _ => Nat.zero_le _

/-- Every segment takes a byte at least, since runs of text are not empty. -/
theorem length_collect_le (depth : Nat) : ∀ (ts : List Token) (path : List Nat) (i : Nat)
    (stretch : Option (Nat × Nat)) {n : Nat} {bytes : List UInt8},
    Markup.encodeTokens e depth ts = .ok (n, bytes) → Token.AllCanonical ts →
      (collect path i stretch ts).length ≤ (if stretch.isSome then 1 else 0) + bytes.length
  | [], path, i, stretch, n, bytes, _, _ => by
    rw [collect, length_close]
    omega
  | t :: ts, path, i, stretch, n, bytes, written, canon => by
    obtain ⟨canon₁, _, canon₂⟩ := canon
    obtain ⟨n, first, m, more, written₁, written₂, rfl, rfl⟩ :=
      Markup.encodeTokens_cons_eq_ok.mp written
    rw [List.length_append]
    -- A token that is not plain closes the stretch in front of it.
    have closing : (close path stretch ++ inside path i t ++ collect path (i + 1) none ts).length ≤
        (if stretch.isSome then 1 else 0) + (first.length + more.length) := by
      have inner := length_inside_le depth t path i written₁ canon₁
      have behind := length_collect_le depth ts path (i + 1) none written₂ canon₂
      rw [List.length_append, List.length_append, length_close]
      simp only [Option.isSome_none, Bool.false_eq_true, if_false] at behind
      omega
    cases t with
    | text run =>
      have behind := length_collect_le depth ts path (i + 1) (some (extend stretch i)) written₂
        canon₂
      have filled : 1 ≤ first.length := by
        simp only [Markup.encodeToken, bind_eq_ok, pure_eq_ok, Prod.mk.injEq] at written₁
        obtain ⟨_, written₁, _, rfl⟩ := written₁
        cases chars : run.toList with
        | nil => exact absurd (String.toList_eq_nil_iff.mp chars) canon₁
        | cons c cs =>
          simp only [chars, Markup.encodeRun, bind_eq_ok, pure_eq_ok] at written₁
          obtain ⟨_, _, _, _, rfl⟩ := written₁
          simp
      rw [collect]
      simp only [Option.isSome_some, if_true] at behind
      omega
    | lineBreak =>
      have behind := length_collect_le depth ts path (i + 1) stretch written₂ canon₂
      rw [collect]
      omega
    | pageBreak => exact closing
    | comment body => exact closing
    | mark tag => exact closing
    | span tag content => exact closing

end

end Segment

/-- A canonical block has no more segments than bytes. -/
theorem TextBlock.length_segments_le {e : Encoding} {block : TextBlock} {bytes : List UInt8}
    (written : block.encode e = .ok bytes) (canon : Token.AllCanonical block.tokens) :
    (Segment.ofTokens block.tokens).length ≤ bytes.length := by
  simp only [encode, refuse_eq_ok, bind_eq_ok, pure_eq_ok, Prod.exists] at written
  obtain ⟨_, count, body, written, rfl⟩ := written
  have few := Segment.length_collect_le 0 block.tokens [] 0 none written canon
  simp only [Option.isSome_none, Bool.false_eq_true, if_false] at few
  rw [Segment.ofTokens, List.length_append]
  omega

end NovelChart
