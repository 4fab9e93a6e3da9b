import Mathlib.Tactic.SplitIfs
import NovelChart.Proofs.Format
import NovelChart.Segment.Basic

/-!
# Segments and their replacement

Siblings fall into stretches of plain tokens, runs of text and line breaks, with other tokens
between them. A stretch that holds text has one segment, from its first run to its last; the
segments of a tree are those of its stretches, in the order of the document. Putting other plain
tokens in place of a segment changes nothing in front of it: the segments there keep their numbers
and their addresses. Behind it the texts stay, while addresses move and the number of segments may
go down by one.

## Main definitions

* `Token.isPlain`: a token that may belong to a segment
* `Segment.Cut`: a stretch cut into line breaks, its segment, and line breaks
* `Segment.place`: the address of a segment seen from further outside
* `Segment.texts`: the texts of all segments
* `Token.outlineAll`: what is left of tokens without their text

## Main results

* `Segment.ofTokens_chunk`: the segments of a stretch, of the token behind it, and of the rest
* `Segment.replace_step`: what replacing a segment does to the segments and their texts
* `Segment.outlineAll_replace`: everything that is not text stays
-/

namespace NovelChart

/-- Whether the token may belong to a segment: a run of text or a line break. -/
def Token.isPlain : Token → Bool
  | .text _ => true
  | .lineBreak => true
  | _ => false

/-- The tokens that a token encloses. -/
def Token.content : Token → List Token
  | .span _ content => content
  | _ => []

mutual

/-- A token without the plain tokens that it encloses. -/
def Token.outline : Token → Token
  | .span tag content => .span tag (Token.outlineAll content)
  | t => t

/-- Tokens without the plain ones among them, at any depth. -/
def Token.outlineAll : List Token → List Token
  | [] => []
  | t :: ts => if t.isPlain then Token.outlineAll ts else t.outline :: Token.outlineAll ts

end

namespace Segment

variable {s ts lead core trail : List Token} {t : Token} {path : List Nat} {i : Nat}

/-! ### Stretches -/

mutual

theorem chunkInduction_token {motive : List Token → Prop}
    (plain : ∀ s, (∀ t ∈ s, t.isPlain = true) → motive s)
    (chunk : ∀ s t rest, (∀ t ∈ s, t.isPlain = true) → t.isPlain = false → motive t.content →
      motive rest → motive (s ++ t :: rest)) : ∀ t : Token, motive t.content
  | .span tag content => chunkInduction_append plain chunk content [] (by simp)
  | .text run => plain [] (by simp)
  | .lineBreak => plain [] (by simp)
  | .pageBreak => plain [] (by simp)
  | .comment body => plain [] (by simp)
  | .mark tag => plain [] (by simp)

theorem chunkInduction_append {motive : List Token → Prop}
    (plain : ∀ s, (∀ t ∈ s, t.isPlain = true) → motive s)
    (chunk : ∀ s t rest, (∀ t ∈ s, t.isPlain = true) → t.isPlain = false → motive t.content →
      motive rest → motive (s ++ t :: rest)) :
    ∀ (ts s : List Token), (∀ t ∈ s, t.isPlain = true) → motive (s ++ ts)
  | [], s, dense => by
    rw [List.append_nil]
    exact plain s dense
  | t :: ts, s, dense => by
    cases isPlain : t.isPlain with
    | true =>
      -- The token lengthens the stretch that is open.
      rw [List.append_cons]
      refine chunkInduction_append plain chunk ts (s ++ [t]) ?_
      intro u member
      rcases List.mem_append.mp member with inside | last
      · exact dense u inside
      · rwa [List.mem_singleton.mp last]
    | false =>
      exact chunk s t ts dense isPlain (chunkInduction_token plain chunk t)
        (chunkInduction_append plain chunk ts [] (by simp))

end

/-- Induction on siblings: a stretch alone, or a stretch, a token that is not plain, and a rest. -/
@[elab_as_elim]
theorem chunkInduction {motive : List Token → Prop} (ts : List Token)
    (plain : ∀ s, (∀ t ∈ s, t.isPlain = true) → motive s)
    (chunk : ∀ s t rest, (∀ t ∈ s, t.isPlain = true) → t.isPlain = false → motive t.content →
      motive rest → motive (s ++ t :: rest)) : motive ts :=
  chunkInduction_append plain chunk ts [] (by simp)

/-- A stretch that holds text: line breaks, the segment, which begins and ends with a run, and line
breaks again. -/
structure Cut (s lead core trail : List Token) : Prop where
  whole : s = lead ++ (core ++ trail)
  lead : ∀ t ∈ lead, t = .lineBreak
  trail : ∀ t ∈ trail, t = .lineBreak
  first : ∃ run rest, core = .text run :: rest
  last : ∃ front run, core = front ++ [.text run]

/-- A stretch holds no text, or it can be cut. -/
theorem exists_cut (dense : ∀ t ∈ s, t.isPlain = true) :
    (∀ t ∈ s, t = .lineBreak) ∨ ∃ lead core trail, Cut s lead core trail := by
  induction s with
  | nil => exact .inl (by simp)
  | cons t s ih =>
    obtain ⟨isPlain, others⟩ := List.forall_mem_cons.mp dense
    cases t with
    | lineBreak =>
      rcases ih others with breaks | ⟨lead, core, trail, cut⟩
      · exact .inl (List.forall_mem_cons.mpr ⟨rfl, breaks⟩)
      · refine .inr ⟨.lineBreak :: lead, core, trail, ?_, ?_, cut.trail, cut.first, cut.last⟩
        · rw [List.cons_append, ← cut.whole]
        · exact List.forall_mem_cons.mpr ⟨rfl, cut.lead⟩
    | text run =>
      rcases ih others with breaks | ⟨lead, core, trail, cut⟩
      · exact .inr ⟨[], [.text run], s, rfl, by simp, breaks, ⟨run, [], rfl⟩, ⟨[], run, rfl⟩⟩
      · -- The segment of the rest, with what lies in front of it, joins the run.
        obtain ⟨front, last, same⟩ := cut.last
        refine .inr ⟨[], .text run :: (lead ++ core), trail, ?_, by simp, cut.trail,
          ⟨run, _, rfl⟩, ⟨.text run :: (lead ++ front), last, ?_⟩⟩
        · rw [List.nil_append, List.cons_append, List.append_assoc, ← cut.whole]
        · rw [same, List.cons_append, List.append_assoc]
    | pageBreak => cases isPlain
    | comment body => cases isPlain
    | mark tag => cases isPlain
    | span tag content => cases isPlain

/-! ### Where segments lie -/

/-- The first and last runs of an open stretch, after further plain tokens from a place on. -/
def mark : Option (Nat × Nat) → Nat → List Token → Option (Nat × Nat)
  | stretch, _, [] => stretch
  | stretch, i, t :: s => mark (if t.isText then some (extend stretch i) else stretch) (i + 1) s

variable {stretch : Option (Nat × Nat)}

theorem mark_append (stretch : Option (Nat × Nat)) (i : Nat) (s more : List Token) :
    mark stretch i (s ++ more) = mark (mark stretch i s) (i + s.length) more := by
  induction s generalizing stretch i with
  | nil => rfl
  | cons t s ih =>
    rw [List.cons_append, mark, mark, ih, List.length_cons, Nat.add_right_comm, Nat.add_assoc]

theorem mark_breaks (breaks : ∀ t ∈ s, t = .lineBreak) : mark stretch i s = stretch := by
  induction s generalizing i with
  | nil => rfl
  | cons t s ih =>
    obtain ⟨rfl, others⟩ := List.forall_mem_cons.mp breaks
    exact ih others

theorem extend_mark {first last : Nat} (i j : Nat) (s : List Token) :
    extend (mark (some (first, last)) i s) j = (first, j) := by
  induction s generalizing i last with
  | nil => rfl
  | cons t s ih =>
    rw [mark]
    split
    · exact ih _
    · exact ih _

/-- The segment of a stretch lies behind its leading line breaks. -/
theorem close_mark (cut : Cut s lead core trail) (path : List Nat) (i : Nat) :
    close path (mark none i s) = [⟨path, i + lead.length, i + lead.length + core.length⟩] := by
  obtain ⟨front, run, same⟩ := cut.last
  have ends : mark none (i + lead.length) core =
      some (i + lead.length, i + lead.length + front.length) := by
    rw [same, mark_append, mark]
    cases front with
    | nil => rfl
    | cons t front =>
      obtain ⟨first, rest, begins⟩ := cut.first
      rw [same, List.cons_append] at begins
      obtain rfl := (List.cons.inj begins).1
      exact congrArg some (extend_mark _ _ front)
  rw [cut.whole, mark_append, mark_append, mark_breaks cut.lead, ends, mark_breaks cut.trail, close,
    same, List.length_append, List.length_singleton, Nat.add_assoc, Nat.add_assoc]

theorem collect_append (dense : ∀ t ∈ s, t.isPlain = true) :
    collect path i stretch (s ++ ts) = collect path (i + s.length) (mark stretch i s) ts := by
  induction s generalizing stretch i with
  | nil => rfl
  | cons t s ih =>
    obtain ⟨isPlain, others⟩ := List.forall_mem_cons.mp dense
    have length : i + (t :: s).length = i + 1 + s.length := by
      rw [List.length_cons]
      omega
    rw [length, List.cons_append, mark]
    cases t with
    | text run => exact ih others
    | lineBreak => exact ih others
    | pageBreak => cases isPlain
    | comment body => cases isPlain
    | mark tag => cases isPlain
    | span tag content => cases isPlain

theorem collect_plain (dense : ∀ t ∈ s, t.isPlain = true) :
    collect path i none s = close path (mark none i s) := by
  rw [← List.append_nil s, collect_append dense, List.append_nil]
  rfl

theorem inside_eq (path : List Nat) (i : Nat) (t : Token) :
    inside path i t = collect (path ++ [i]) 0 none t.content := by
  cases t <;> rfl

theorem collect_chunk (dense : ∀ t ∈ s, t.isPlain = true) (other : t.isPlain = false) :
    collect path i none (s ++ t :: ts) =
      close path (mark none i s) ++ (collect (path ++ [i + s.length]) 0 none t.content ++
        collect path (i + s.length + 1) none ts) := by
  rw [collect_append dense, ← inside_eq, ← List.append_assoc]
  cases t with
  | text run => cases other
  | lineBreak => cases other
  | pageBreak => rfl
  | comment body => rfl
  | mark tag => rfl
  | span tag content => rfl

/-- The address of a segment, seen from where a path and a number of siblings lie in front. -/
def place (path : List Nat) (i : Nat) (seg : Segment) : Segment :=
  match seg.path with
  | [] => ⟨path, i + seg.start, i + seg.stop⟩
  | j :: inner => ⟨path ++ (i + j) :: inner, seg.start, seg.stop⟩

theorem place_shift (path : List Nat) (i j : Nat) (seg : Segment) :
    place path i (place [] j seg) = place path (i + j) seg := by
  obtain ⟨inner, start, stop⟩ := seg
  cases inner <;> simp [place, Nat.add_assoc]

theorem place_enter (path : List Nat) (i j : Nat) (seg : Segment) :
    place path i (place [j] 0 seg) = place (path ++ [i + j]) 0 seg := by
  obtain ⟨inner, start, stop⟩ := seg
  cases inner <;> simp [place]

/-- Segments are addressed from any place as from the outermost one. -/
theorem collect_eq_map (path : List Nat) (i : Nat) (ts : List Token) :
    collect path i none ts = (ofTokens ts).map (place path i) := by
  have closed : ∀ {s : List Token}, (∀ t ∈ s, t.isPlain = true) → ∀ path i,
      close path (mark none i s) = (close [] (mark none 0 s)).map (place path i) := by
    intro s dense path i
    rcases exists_cut dense with breaks | ⟨lead, core, trail, cut⟩
    · rw [mark_breaks breaks, mark_breaks breaks]
      rfl
    · rw [close_mark cut, close_mark cut]
      simp [place, Nat.add_assoc]
  induction ts using chunkInduction generalizing path i with
  | plain s dense => rw [ofTokens, collect_plain dense, collect_plain dense, closed dense]
  | chunk s t rest dense other inner behind =>
    rw [ofTokens, collect_chunk dense other, collect_chunk dense other, closed dense, inner, inner,
      behind, behind]
    simp only [List.map_append, List.map_map, Function.comp_def, place_shift, place_enter,
      List.nil_append, Nat.zero_add, Nat.add_assoc]

/-- A stretch without text has no segment. -/
theorem ofTokens_breaks (breaks : ∀ t ∈ s, t = .lineBreak) : ofTokens s = [] := by
  have dense : ∀ t ∈ s, t.isPlain = true := fun t member => by rw [breaks t member]; rfl
  rw [ofTokens, collect_plain dense, mark_breaks breaks]
  rfl

/-- A stretch with text has one segment. -/
theorem ofTokens_cut (dense : ∀ t ∈ s, t.isPlain = true) (cut : Cut s lead core trail) :
    ofTokens s = [⟨[], lead.length, lead.length + core.length⟩] := by
  rw [ofTokens, collect_plain dense, close_mark cut, Nat.zero_add]

/-- The segments of a stretch, of the token behind it, and of the rest. -/
theorem ofTokens_chunk (dense : ∀ t ∈ s, t.isPlain = true) (other : t.isPlain = false) :
    ofTokens (s ++ t :: ts) = ofTokens s ++ ((ofTokens t.content).map (place [s.length] 0) ++
      (ofTokens ts).map (place [] (s.length + 1))) := by
  have front : ofTokens s = close [] (mark none 0 s) := collect_plain dense
  rw [ofTokens, collect_chunk dense other, collect_eq_map, collect_eq_map, front]
  simp only [List.nil_append, Nat.zero_add]

/-! ### Texts and replacement, seen from outside -/

variable {pre rest content : List Token} {tag : Tag}

/-- The plain text of tokens. -/
def plainText (ts : List Token) : String :=
  String.ofList (ts.flatMap tokenText)

theorem text?_cut (cut : Cut s lead core trail) (rest : List Token) :
    text? (s ++ rest) ⟨[], lead.length, lead.length + core.length⟩ = some (plainText core) := by
  have within : ((s ++ rest).take (lead.length + core.length)).drop lead.length = core := by
    rw [cut.whole, ← List.length_append, ← List.append_assoc, List.append_assoc (lead ++ core),
      List.take_left, List.drop_left]
  rw [text?, siblings?, Option.map_some, within, plainText]

theorem replace_cut (cut : Cut s lead core trail) (rest x : List Token) :
    replace (s ++ rest) ⟨[], lead.length, lead.length + core.length⟩ x =
      (lead ++ (x ++ trail)) ++ rest := by
  have front : (s ++ rest).take lead.length = lead := by
    rw [cut.whole, List.append_assoc, List.take_left]
  have back : (s ++ rest).drop (lead.length + core.length) = trail ++ rest := by
    rw [cut.whole, ← List.length_append, ← List.append_assoc, List.append_assoc (lead ++ core),
      List.drop_left]
  rw [replace, modifySiblings, front, back]
  simp only [List.append_assoc]

theorem text?_shift (pre rest : List Token) (seg : Segment) :
    text? (pre ++ rest) (place [] pre.length seg) = text? rest seg := by
  obtain ⟨path, start, stop⟩ := seg
  cases path with
  | nil =>
    simp only [place, text?, siblings?, Option.map_some, List.take_length_add_append,
      List.drop_length_add_append]
  | cons j path =>
    have there : (pre ++ rest)[pre.length + j]? = rest[j]? := by
      rw [List.getElem?_append_right (Nat.le_add_right _ _), Nat.add_sub_cancel_left]
    simp only [place, text?, siblings?, List.nil_append, there]

theorem replace_shift (pre rest x : List Token) (seg : Segment) :
    replace (pre ++ rest) (place [] pre.length seg) x = pre ++ replace rest seg x := by
  obtain ⟨path, start, stop⟩ := seg
  cases path with
  | nil =>
    simp only [place, replace, modifySiblings, List.take_length_add_append,
      List.drop_length_add_append, List.append_assoc]
  | cons j path =>
    simp only [place, replace, modifySiblings, List.nil_append, modify_append_right]

theorem text?_enter (pre rest content : List Token) (tag : Tag) (seg : Segment) :
    text? (pre ++ .span tag content :: rest) (place [pre.length] 0 seg) = text? content seg := by
  obtain ⟨path, start, stop⟩ := seg
  cases path with
  | nil => simp [place, text?, siblings?]
  | cons j path => simp [place, text?, siblings?]

theorem replace_enter (pre rest content x : List Token) (tag : Tag) (seg : Segment) :
    replace (pre ++ .span tag content :: rest) (place [pre.length] 0 seg) x =
      pre ++ .span tag (replace content seg x) :: rest := by
  obtain ⟨path, start, stop⟩ := seg
  cases path with
  | nil => simp [place, replace, modifySiblings, modify_at_cut]
  | cons j path => simp [place, replace, modifySiblings, modify_at_cut]

/-! ### All texts -/

/-- The texts of all segments, in the order of the document. -/
def texts (ts : List Token) : List (Option String) :=
  (ofTokens ts).map (text? ts)

theorem texts_breaks (breaks : ∀ t ∈ s, t = .lineBreak) : texts s = [] := by
  rw [texts, ofTokens_breaks breaks, List.map_nil]

theorem texts_cut (dense : ∀ t ∈ s, t.isPlain = true) (cut : Cut s lead core trail) :
    texts s = [some (plainText core)] := by
  have text := text?_cut cut []
  rw [List.append_nil] at text
  rw [texts, ofTokens_cut dense cut, List.map_singleton, text]

theorem map_text?_stretch (dense : ∀ t ∈ s, t.isPlain = true) (rest : List Token) :
    (ofTokens s).map (text? (s ++ rest)) = texts s := by
  rcases exists_cut dense with breaks | ⟨lead, core, trail, cut⟩
  · rw [texts, ofTokens_breaks breaks, List.map_nil, List.map_nil]
  · rw [texts_cut dense cut, ofTokens_cut dense cut, List.map_singleton, text?_cut cut]

theorem map_text?_enter (pre rest content : List Token) (tag : Tag) (segs : List Segment) :
    (segs.map (place [pre.length] 0)).map (text? (pre ++ .span tag content :: rest)) =
      segs.map (text? content) := by
  rw [List.map_map]
  exact List.map_congr_left fun seg _ => text?_enter pre rest content tag seg

theorem map_text?_shift (pre rest : List Token) (t : Token) (segs : List Segment) :
    (segs.map (place [] (pre.length + 1))).map (text? (pre ++ t :: rest)) =
      segs.map (text? rest) := by
  rw [List.map_map]
  refine List.map_congr_left fun seg _ => ?_
  have shifted := text?_shift (pre ++ [t]) rest seg
  rw [List.append_assoc, List.singleton_append, List.length_append] at shifted
  exact shifted

/-- A token that encloses nothing has no segments. -/
theorem content_cases (other : t.isPlain = false) :
    (∃ tag content, t = .span tag content) ∨ t.content = [] := by
  cases t with
  | span tag content => exact .inl ⟨tag, content, rfl⟩
  | text run => cases other
  | lineBreak => cases other
  | pageBreak => exact .inr rfl
  | comment body => exact .inr rfl
  | mark tag => exact .inr rfl

theorem map_text?_content (other : t.isPlain = false) (pre rest : List Token) :
    ((ofTokens t.content).map (place [pre.length] 0)).map (text? (pre ++ t :: rest)) =
      texts t.content := by
  rcases content_cases other with ⟨tag, content, rfl⟩ | empty
  · exact map_text?_enter pre rest content tag _
  · rw [empty]
    rfl

/-- The texts of a stretch, of the token behind it, and of the rest. -/
theorem texts_chunk (dense : ∀ t ∈ s, t.isPlain = true) (other : t.isPlain = false) :
    texts (s ++ t :: ts) = texts s ++ (texts t.content ++ texts ts) := by
  rw [texts, ofTokens_chunk dense other, List.map_append, List.map_append,
    map_text?_stretch dense, map_text?_content other, map_text?_shift]
  rfl

/-- Every segment has a text. -/
theorem isSome_texts (ts : List Token) : ∀ text ∈ texts ts, text.isSome = true := by
  have stretch : ∀ {s : List Token}, (∀ t ∈ s, t.isPlain = true) →
      ∀ text ∈ texts s, text.isSome = true := by
    intro s dense
    rcases exists_cut dense with breaks | ⟨lead, core, trail, cut⟩
    · simp [texts_breaks breaks]
    · simp [texts_cut dense cut]
  induction ts using chunkInduction with
  | plain s dense => exact stretch dense
  | chunk s t rest dense other inner behind =>
    rw [texts_chunk dense other]
    exact List.forall_mem_append.mpr ⟨stretch dense, List.forall_mem_append.mpr ⟨inner, behind⟩⟩

/-! ### One replacement -/

theorem isPlain_append {more : List Token} (dense : ∀ t ∈ s, t.isPlain = true)
    (dense' : ∀ t ∈ more, t.isPlain = true) : ∀ t ∈ s ++ more, t.isPlain = true := by
  intro t member
  rcases List.mem_append.mp member with inside | inside
  · exact dense t inside
  · exact dense' t inside

theorem isPlain_breaks (breaks : ∀ t ∈ s, t = .lineBreak) : ∀ t ∈ s, t.isPlain = true := by
  intro t member
  rw [breaks t member]
  rfl

/-- Line breaks around plain tokens do not change their texts. -/
theorem texts_between {x : List Token} (breaks : ∀ t ∈ lead, t = .lineBreak)
    (breaks' : ∀ t ∈ trail, t = .lineBreak) (dense : ∀ t ∈ x, t.isPlain = true) :
    texts (lead ++ (x ++ trail)) = texts x := by
  have plain : ∀ t ∈ lead ++ (x ++ trail), t.isPlain = true :=
    isPlain_append (isPlain_breaks breaks) (isPlain_append dense (isPlain_breaks breaks'))
  rcases exists_cut dense with none | ⟨before, core, behind, cut⟩
  · rw [texts_breaks none, texts_breaks]
    simp only [List.forall_mem_append]
    exact ⟨breaks, none, breaks'⟩
  · have cut' : Cut (lead ++ (x ++ trail)) (lead ++ before) core (behind ++ trail) := by
      refine ⟨?_, ?_, ?_, cut.first, cut.last⟩
      · rw [cut.whole]
        simp only [List.append_assoc]
      · exact List.forall_mem_append.mpr ⟨breaks, cut.lead⟩
      · exact List.forall_mem_append.mpr ⟨cut.trail, breaks'⟩
    rw [texts_cut dense cut, texts_cut plain cut']

variable {front back : List Segment} {seg : Segment} {x : List Token}

/-- The segment of a stretch is its only one, and what replaces it stays inside the stretch. -/
theorem replace_stretch (dense : ∀ t ∈ s, t.isPlain = true) (dense' : ∀ t ∈ x, t.isPlain = true)
    (found : ofTokens s = front ++ seg :: back) :
    front = [] ∧ back = [] ∧ ∃ s', (∀ t ∈ s', t.isPlain = true) ∧ texts s' = texts x ∧
      ∀ rest, replace (s ++ rest) seg x = s' ++ rest := by
  rcases exists_cut dense with breaks | ⟨lead, core, trail, cut⟩
  · rw [ofTokens_breaks breaks] at found
    simp at found
  · rw [ofTokens_cut dense cut] at found
    rcases List.singleton_eq_append_iff.mp found with ⟨rfl, same⟩ | ⟨_, same⟩
    · obtain ⟨rfl, rfl⟩ := List.cons.inj same
      refine ⟨rfl, rfl, lead ++ (x ++ trail), ?_, texts_between cut.lead cut.trail dense',
        fun rest => replace_cut cut rest x⟩
      exact isPlain_append (isPlain_breaks cut.lead)
        (isPlain_append dense' (isPlain_breaks cut.trail))
    · cases same

theorem replace_behind (pre rest : List Token) (t : Token) (seg : Segment) (x : List Token) :
    replace (pre ++ t :: rest) (place [] (pre.length + 1) seg) x =
      pre ++ t :: replace rest seg x := by
  have shifted := replace_shift (pre ++ [t]) rest x seg
  rw [List.append_assoc, List.append_assoc, List.length_append] at shifted
  exact shifted

/-- Replacing a segment by plain tokens leaves the segments in front of it where they are, and puts
the texts of these tokens in place of its text. -/
theorem replace_step (dense : ∀ t ∈ x, t.isPlain = true) (ts : List Token) :
    ∀ {front back : List Segment} {seg : Segment}, ofTokens ts = front ++ seg :: back →
      (∃ more, ofTokens (replace ts seg x) = front ++ more) ∧
        texts (replace ts seg x) = front.map (text? ts) ++ (texts x ++ back.map (text? ts)) := by
  induction ts using chunkInduction with
  | plain s dense' =>
    intro front back seg found
    obtain ⟨rfl, rfl, s', _, same, replaced⟩ := replace_stretch dense' dense found
    have replaced := replaced []
    rw [List.append_nil, List.append_nil] at replaced
    rw [replaced, same]
    exact ⟨⟨_, rfl⟩, by simp⟩
  | chunk s t rest dense' other inner behind =>
    intro front back seg found
    rw [ofTokens_chunk dense' other] at found
    rcases append_cut found with ⟨mid, first, rfl⟩ | ⟨mid, rfl, more⟩
    · -- The segment of the stretch in front.
      obtain ⟨rfl, rfl, s', dense'', same, replaced⟩ := replace_stretch dense' dense first
      refine ⟨⟨_, rfl⟩, ?_⟩
      rw [replaced, texts_chunk dense'' other, same, List.map_nil, List.nil_append,
        List.nil_append, List.map_append, map_text?_content other, map_text?_shift]
      rfl
    · rcases append_cut more with ⟨mid', first, rfl⟩ | ⟨mid', rfl, last⟩
      · -- A segment inside the token, which is a span then.
        rcases content_cases other with ⟨tag, content, rfl⟩ | empty
        · obtain ⟨front, behind', cut, rfl, same⟩ := List.map_eq_append_iff.mp first
          obtain ⟨seg, back, rfl, rfl, rfl⟩ := List.map_eq_cons_iff.mp same
          obtain ⟨⟨more', segments⟩, changed⟩ := inner cut
          dsimp only [Token.content] at segments changed
          rw [replace_enter]
          constructor
          · refine ⟨more'.map (place [s.length] 0) ++
              (ofTokens rest).map (place [] (s.length + 1)), ?_⟩
            rw [ofTokens_chunk dense' rfl]
            simp only [Token.content, segments, List.map_append, List.append_assoc]
          · rw [texts_chunk dense' rfl]
            simp only [Token.content, changed, List.map_append, map_text?_stretch dense',
              map_text?_enter, map_text?_shift, List.append_assoc]
            rfl
        · rw [empty] at first
          simp [ofTokens, collect, close] at first
      · -- A segment of the rest.
        obtain ⟨front, behind', cut, rfl, same⟩ := List.map_eq_append_iff.mp last
        obtain ⟨seg, back, rfl, rfl, rfl⟩ := List.map_eq_cons_iff.mp same
        obtain ⟨⟨more', segments⟩, changed⟩ := behind cut
        rw [replace_behind]
        constructor
        · refine ⟨more'.map (place [] (s.length + 1)), ?_⟩
          rw [ofTokens_chunk dense' other]
          simp only [segments, List.map_append, List.append_assoc]
        · rw [texts_chunk dense' other]
          simp only [changed, List.map_append, map_text?_stretch dense', map_text?_content other,
            map_text?_shift, List.append_assoc]

/-! ### What is not text -/

theorem outlineAll_append (s ts : List Token) :
    Token.outlineAll (s ++ ts) = Token.outlineAll s ++ Token.outlineAll ts := by
  induction s with
  | nil => rfl
  | cons t s ih =>
    rw [List.cons_append, Token.outlineAll, Token.outlineAll, ih]
    split
    · rfl
    · rw [List.cons_append]

theorem outlineAll_plain (dense : ∀ t ∈ s, t.isPlain = true) : Token.outlineAll s = [] := by
  induction s with
  | nil => rfl
  | cons t s ih =>
    obtain ⟨isPlain, others⟩ := List.forall_mem_cons.mp dense
    rw [Token.outlineAll, if_pos isPlain, ih others]

theorem outlineAll_chunk (dense : ∀ t ∈ s, t.isPlain = true) (other : t.isPlain = false) :
    Token.outlineAll (s ++ t :: ts) = t.outline :: Token.outlineAll ts := by
  rw [outlineAll_append, outlineAll_plain dense, List.nil_append, Token.outlineAll, if_neg]
  rw [other]
  exact Bool.false_ne_true

/-- Replacing a segment by plain tokens leaves everything that is not text. -/
theorem outlineAll_replace (dense : ∀ t ∈ x, t.isPlain = true) (ts : List Token) :
    ∀ seg ∈ ofTokens ts, Token.outlineAll (replace ts seg x) = Token.outlineAll ts := by
  induction ts using chunkInduction with
  | plain s dense' =>
    intro seg member
    obtain ⟨front, back, found⟩ := List.append_of_mem member
    obtain ⟨_, _, s', dense'', _, replaced⟩ := replace_stretch dense' dense found
    have replaced := replaced []
    rw [List.append_nil, List.append_nil] at replaced
    rw [replaced, outlineAll_plain dense'', outlineAll_plain dense']
  | chunk s t rest dense' other inner behind =>
    intro seg member
    rw [ofTokens_chunk dense' other, List.mem_append, List.mem_append] at member
    rcases member with first | within | last
    · obtain ⟨front, back, found⟩ := List.append_of_mem first
      obtain ⟨_, _, s', dense'', _, replaced⟩ := replace_stretch dense' dense found
      rw [replaced, outlineAll_chunk dense'' other, outlineAll_chunk dense' other]
    · obtain ⟨seg, member, rfl⟩ := List.mem_map.mp within
      rcases content_cases other with ⟨tag, content, rfl⟩ | empty
      · rw [replace_enter, outlineAll_chunk dense' rfl, outlineAll_chunk dense' rfl,
          Token.outline, Token.outline]
        exact congrArg (fun content => Token.span tag content :: Token.outlineAll rest)
          (inner seg member)
      · rw [empty] at member
        cases member
    · obtain ⟨seg, member, rfl⟩ := List.mem_map.mp last
      rw [replace_behind, outlineAll_chunk dense' other, outlineAll_chunk dense' other,
        behind seg member]

end Segment

end NovelChart
