import NovelChart.Proofs.Filling
import NovelChart.Proofs.ReadBack
import NovelChart.Proofs.Writable

/-!
# Plain text in place of a segment

A segment begins and ends with a run of text, and so neither of its neighbours is one. Plain text
that takes its place therefore never meets another run, and canonical tokens stay canonical. What
can be written stays so if the new characters can be written, and what is read back as itself stays
so if the new characters are. All of this is about one shape, `Segment.Replaces`, a stretch that is
exchanged somewhere in the tree.

## Main definitions

* `Segment.Replaces`: tokens in which a segment was exchanged for others

## Main results

* `Segment.replaces_replace`: replacing a segment is such an exchange
* `Segment.Replaces.allCanonical`, `Segment.Replaces.encodeTokens`, `Segment.Replaces.reread_eq`:
  what an exchange keeps
* `Segment.text?_rereadAll`: a segment is read back where it was, with its text read back
-/

namespace NovelChart

variable {e : Encoding}

/-! ### Plain text -/

theorem allCanonical_lineTokens (line : List Char) : Token.AllCanonical (lineTokens line) := by
  rw [lineTokens]
  cases line with
  | nil => trivial
  | cons c cs =>
    refine ⟨?_, ?_, trivial⟩
    · intro empty
      cases String.ofList_eq_empty_iff.mp empty
    · rintro _ _ ⟨⟩

/-- Plain text makes canonical tokens: line breaks keep its runs apart. -/
theorem allCanonical_plainTokens (text : String) : Token.AllCanonical (plainTokens text) := by
  have breaks : ∀ rest : List (List Char),
      Token.AllCanonical ((rest.map lineTokens).flatMap (.lineBreak :: ·)) ∧
        ∀ u ∈ ((rest.map lineTokens).flatMap (.lineBreak :: ·)).head?, u.isText = false := by
    intro rest
    induction rest with
    | nil => exact ⟨trivial, by rintro _ ⟨⟩⟩
    | cons line rest ih =>
      constructor
      · rw [List.map_cons, List.flatMap_cons, List.cons_append]
        refine ⟨trivial, by rintro ⟨⟩, ?_⟩
        exact Token.allCanonical_append.mpr ⟨allCanonical_lineTokens line, ih.1, fun _ _ _ => ih.2⟩
      · rintro _ ⟨⟩
        rfl
  rw [plainTokens, ← List.map_map]
  cases (Text.pieces '\n' text.toList).map Text.dropReturn with
  | nil => trivial
  | cons line rest =>
    obtain ⟨canon, apart⟩ := breaks rest
    exact Token.allCanonical_append.mpr ⟨allCanonical_lineTokens line, canon, fun _ _ _ => apart⟩

theorem Token.anyComment_eq_false {ts : List Token} :
    anyComment ts = false ↔ ∀ t ∈ ts, t.hasComment = false := by
  induction ts with
  | nil => simp [anyComment]
  | cons t ts ih => rw [anyComment, Bool.or_eq_false_iff, ih, List.forall_mem_cons]

theorem anyComment_plainTokens (text : String) : Token.anyComment (plainTokens text) = false := by
  refine Token.anyComment_eq_false.mpr fun t member => ?_
  rcases mem_plainTokens member with rfl | ⟨c, cs, rfl, _⟩
  · rfl
  · rfl

/-- Plain tokens enclose nothing, and what they write stands in their runs. -/
theorem Token.plain_cases {ts : List Token} (dense : ∀ t ∈ ts, t.isPlain = true) :
    depthAll ts = 0 ∧ ∀ c ∈ writtenAll ts, ∃ run, .text run ∈ ts ∧ c ∈ run.toList := by
  induction ts with
  | nil => exact ⟨rfl, by rintro _ ⟨⟩⟩
  | cons t ts ih =>
    obtain ⟨isPlain, others⟩ := List.forall_mem_cons.mp dense
    obtain ⟨flat, runs⟩ := ih others
    have flat : max 0 (depthAll ts) = 0 := by rw [flat, Nat.max_self]
    have later : ∀ c ∈ writtenAll ts, ∃ run, .text run ∈ t :: ts ∧ c ∈ run.toList := by
      intro c member
      obtain ⟨run, among, inside⟩ := runs c member
      exact ⟨run, List.mem_cons_of_mem t among, inside⟩
    cases t with
    | text run =>
      refine ⟨flat, fun c member => ?_⟩
      rcases List.mem_append.mp member with first | rest
      · exact ⟨run, List.mem_cons_self, first⟩
      · exact later c rest
    | lineBreak => exact ⟨flat, later⟩
    | pageBreak => cases isPlain
    | comment body => cases isPlain
    | mark tag => cases isPlain
    | span tag content => cases isPlain

/-- Plain text can be written at any depth if its characters can. -/
theorem encodeTokens_plainTokens {text : String}
    (writable : ∀ c ∈ text.toList, (e.encodeChar c).isSome = true) {depth : Nat}
    (shallow : depth ≤ maxDepth) :
    ∃ r, Markup.encodeTokens e depth (plainTokens text) = .ok r := by
  obtain ⟨flat, runs⟩ := Token.plain_cases (isPlain_plainTokens text)
  refine (Markup.hinges_encodeTokens e depth _ (allCanonical_plainTokens text)
    (by omega)).exists_ok_iff.mpr fun c member => ?_
  obtain ⟨run, among, inside⟩ := runs c member
  rcases mem_plainTokens among with absurd | ⟨d, ds, same, _, within⟩
  · cases absurd
  · cases same
    rw [String.toList_ofList] at inside
    exact writable c (within inside)

/-! ### Reading back -/

/-- A text is read back as itself when all its characters are. -/
theorem Encoding.reread_eq_self_iff {s : String} :
    e.reread s = s ↔ ∀ c ∈ s.toList, e.rereadChar c = c := by
  rw [Encoding.reread, ← String.toList_inj, String.toList_ofList]
  constructor
  · intro same c member
    obtain ⟨i, inside, rfl⟩ := List.getElem_of_mem member
    have here := congrArg (fun cs => cs[i]?) same
    simpa [inside] using here
  · intro each
    exact (List.map_congr_left each).trans (List.map_id _)

namespace Token

theorem rereadAll_eq_map (e : Encoding) (ts : List Token) :
    rereadAll e ts = ts.map (reread e) := by
  induction ts with
  | nil => rfl
  | cons t ts ih => rw [rereadAll, ih, List.map_cons]

theorem rereadAll_eq_self_iff {ts : List Token} :
    rereadAll e ts = ts ↔ ∀ t ∈ ts, t.reread e = t := by
  induction ts with
  | nil => simp [rereadAll]
  | cons t ts ih => rw [rereadAll, List.cons.injEq, ih, List.forall_mem_cons]

end Token

theorem reread_plainTokens {text : String} (same : e.reread text = text) :
    ∀ t ∈ plainTokens text, t.reread e = t := by
  intro t member
  have each := Encoding.reread_eq_self_iff.mp same
  rcases mem_plainTokens member with rfl | ⟨c, cs, rfl, _, within⟩
  · rfl
  · rw [Token.reread, Encoding.reread_eq_self_iff.mpr]
    rw [String.toList_ofList]
    exact fun d inside => each d (within inside)

namespace Segment

mutual

theorem inside_reread (e : Encoding) (path : List Nat) (i : Nat) :
    ∀ t : Token, inside path i (t.reread e) = inside path i t
  | .span _ content => collect_rereadAll e (path ++ [i]) 0 none content
  | .text _ => rfl
  | .lineBreak => rfl
  | .pageBreak => rfl
  | .comment _ => rfl
  | .mark _ => rfl

theorem collect_rereadAll (e : Encoding) (path : List Nat) (i : Nat)
    (stretch : Option (Nat × Nat)) :
    ∀ ts : List Token, collect path i stretch (Token.rereadAll e ts) = collect path i stretch ts
  | [] => rfl
  | t :: ts => by
    have first := inside_reread e path i t
    rw [Token.rereadAll]
    cases t with
    | text run => exact collect_rereadAll e path (i + 1) _ ts
    | lineBreak => exact collect_rereadAll e path (i + 1) stretch ts
    | pageBreak =>
      exact congrArg (close path stretch ++ [] ++ ·) (collect_rereadAll e path (i + 1) none ts)
    | comment body =>
      exact congrArg (close path stretch ++ [] ++ ·) (collect_rereadAll e path (i + 1) none ts)
    | mark tag =>
      exact congrArg (close path stretch ++ [] ++ ·) (collect_rereadAll e path (i + 1) none ts)
    | span tag content =>
      exact congrArg₂ (close path stretch ++ · ++ ·) first
        (collect_rereadAll e path (i + 1) none ts)

end

/-- Segments are read back where they were. -/
theorem ofTokens_rereadAll (e : Encoding) (ts : List Token) :
    ofTokens (Token.rereadAll e ts) = ofTokens ts :=
  collect_rereadAll e [] 0 none ts

theorem siblings?_rereadAll (e : Encoding) (path : List Nat) (ts : List Token) :
    siblings? path (Token.rereadAll e ts) = (siblings? path ts).map (Token.rereadAll e) := by
  induction path generalizing ts with
  | nil => rfl
  | cons i path ih =>
    rw [siblings?, siblings?, Token.rereadAll_eq_map, List.getElem?_map]
    cases ts[i]? with
    | none => rfl
    | some t =>
      cases t with
      | span tag content => exact ih content
      | _ => rfl

theorem tokenText_reread (e : Encoding) (t : Token) :
    tokenText (t.reread e) = (tokenText t).map e.rereadChar := by
  cases t with
  | text run => rw [Token.reread, tokenText, Encoding.reread, String.toList_ofList, tokenText]
  | lineBreak => cases e <;> rfl
  | _ => rfl

/-- The text of a segment is read back character by character. -/
theorem text?_rereadAll (e : Encoding) (ts : List Token) (seg : Segment) :
    text? (Token.rereadAll e ts) seg = (text? ts seg).map e.reread := by
  rw [text?, text?, siblings?_rereadAll, Option.map_map, Option.map_map]
  congr 1
  funext siblings
  simp only [Function.comp_apply, Encoding.reread, String.toList_ofList, Token.rereadAll_eq_map,
    ← List.map_take, ← List.map_drop, List.flatMap_map, List.map_flatMap, tokenText_reread]

/-! ### Exchanging a segment -/

variable {x ts ts' : List Token}

/-- Somewhere in the tree, a stretch that begins and ends with a run of text was exchanged. -/
inductive Replaces (x : List Token) : List Token → List Token → Prop
  | among {pre core rest : List Token} : (∃ run more, core = .text run :: more) →
      (∃ front run, core = front ++ [.text run]) →
      Replaces x (pre ++ (core ++ rest)) (pre ++ (x ++ rest))
  | inside {pre content content' rest : List Token} {tag : Tag} : Replaces x content content' →
      Replaces x (pre ++ .span tag content :: rest) (pre ++ .span tag content' :: rest)

theorem Replaces.behind (replaced : Replaces x ts ts') (front : List Token) :
    Replaces x (front ++ ts) (front ++ ts') := by
  cases replaced with
  | @among pre _ _ first last =>
    rw [← List.append_assoc front pre, ← List.append_assoc front pre]
    exact .among first last
  | @inside pre _ _ _ _ within =>
    rw [← List.append_assoc front pre, ← List.append_assoc front pre]
    exact .inside within

theorem replaces_stretch {s : List Token} {seg : Segment} (dense : ∀ t ∈ s, t.isPlain = true)
    (member : seg ∈ ofTokens s) (rest : List Token) :
    Replaces x (s ++ rest) (replace (s ++ rest) seg x) := by
  rcases exists_cut dense with breaks | ⟨lead, core, trail, cut⟩
  · rw [ofTokens_breaks breaks] at member
    cases member
  · rw [ofTokens_cut dense cut] at member
    cases List.mem_singleton.mp member
    rw [replace_cut cut, cut.whole]
    simp only [List.append_assoc]
    exact .among cut.first cut.last

/-- Replacing a segment exchanges a stretch. -/
theorem replaces_replace (x ts : List Token) :
    ∀ seg ∈ ofTokens ts, Replaces x ts (replace ts seg x) := by
  induction ts using chunkInduction with
  | plain s dense =>
    intro seg member
    have replaced := replaces_stretch (x := x) dense member []
    rwa [List.append_nil] at replaced
  | chunk s t rest dense other inner behind =>
    intro seg member
    rw [ofTokens_chunk dense other, List.mem_append, List.mem_append] at member
    rcases member with first | within | last
    · exact replaces_stretch dense first _
    · obtain ⟨seg, member, rfl⟩ := List.mem_map.mp within
      rcases content_cases other with ⟨tag, content, rfl⟩ | empty
      · rw [replace_enter]
        exact .inside (inner seg member)
      · rw [empty] at member
        cases member
    · obtain ⟨seg, member, rfl⟩ := List.mem_map.mp last
      rw [replace_behind]
      exact ((behind seg member).behind [t]).behind s

/-- No run of text stands next to the exchanged stretch, so canonical tokens stay canonical. -/
theorem Replaces.allCanonical (replaced : Replaces x ts ts') (new : Token.AllCanonical x)
    (canon : Token.AllCanonical ts) : Token.AllCanonical ts' := by
  induction replaced with
  | @among pre core rest first last =>
    obtain ⟨run, more, rfl⟩ := first
    obtain ⟨front, run', ends⟩ := last
    obtain ⟨canon₁, canon₂, apart⟩ := Token.allCanonical_append.mp canon
    obtain ⟨_, canon₃, apart'⟩ := Token.allCanonical_append.mp canon₂
    refine Token.allCanonical_append.mpr
      ⟨canon₁, Token.allCanonical_append.mpr ⟨new, canon₃, ?_⟩, ?_⟩
    · -- What follows the stretch followed the run that it ends with.
      intro _ _ _
      exact apart' (.text run') (by rw [ends, List.getLast?_concat]; rfl) rfl
    · -- A run in front would have met the one that the stretch begins with.
      intro t before isText
      cases apart t before isText (.text run) rfl
  | @inside pre content content' rest tag _ ih =>
    obtain ⟨canon₁, ⟨⟨spec, contents⟩, next, canon₂⟩, apart⟩ := Token.allCanonical_append.mp canon
    refine Token.allCanonical_append.mpr ⟨canon₁, ⟨⟨spec, ih contents⟩, ?_, canon₂⟩, ?_⟩
    · rintro ⟨⟩
    · rintro _ _ _ _ ⟨⟩
      rfl

theorem Replaces.anyComment (replaced : Replaces x ts ts') (new : Token.anyComment x = false)
    (free : Token.anyComment ts = false) : Token.anyComment ts' = false := by
  induction replaced with
  | among first last =>
    simp only [Token.anyComment_append, Bool.or_eq_false_iff] at free ⊢
    exact ⟨free.1, new, free.2.2⟩
  | inside _ ih =>
    simp only [Token.anyComment_append, Token.anyComment, Token.hasComment,
      Bool.or_eq_false_iff] at free ⊢
    exact ⟨free.1, ih free.2.1, free.2.2⟩

/-- Tokens can be written when each of them can. -/
theorem exists_encodeTokens {depth : Nat} : (∃ r, Markup.encodeTokens e depth ts = .ok r) ↔
    ∀ t ∈ ts, ∃ r, Markup.encodeToken e depth t = .ok r := by
  induction ts with
  | nil => exact ⟨by rintro _ _ ⟨⟩, fun _ => ⟨_, rfl⟩⟩
  | cons t ts ih =>
    rw [List.forall_mem_cons, ← ih]
    simp only [Prod.exists, Markup.encodeTokens_cons_eq_ok]
    constructor
    · rintro ⟨_, _, n, bytes, m, more, first, rest, _, _⟩
      exact ⟨⟨n, bytes, first⟩, m, more, rest⟩
    · rintro ⟨⟨n, bytes, first⟩, m, more, rest⟩
      exact ⟨_, _, n, bytes, m, more, first, rest, rfl, rfl⟩

theorem exists_encodeToken_span {depth : Nat} {tag : Tag} {content : List Token} :
    (∃ r, Markup.encodeToken e depth (.span tag content) = .ok r) ↔
      (∃ head, Markup.encodeHead e tag true = .ok head) ∧ depth + 1 ≤ maxDepth ∧
        ∃ r, Markup.encodeTokens e (depth + 1) content = .ok r := by
  simp only [Markup.encodeToken, bind_eq_ok, pure_eq_ok, refuse_eq_ok, Prod.exists,
    Prod.mk.injEq, Nat.not_le]
  constructor
  · rintro ⟨_, _, head, written, low, count, body, inner, _, _⟩
    exact ⟨⟨head, written⟩, low, count, body, inner⟩
  · rintro ⟨⟨head, written⟩, low, count, body, inner⟩
    exact ⟨_, _, head, written, low, count, body, inner, rfl, rfl⟩

/-- Tokens that can be written stay so, if the new ones can be written at every depth. -/
theorem Replaces.encodeTokens (replaced : Replaces x ts ts') {depth : Nat}
    (new : ∀ depth ≤ maxDepth, ∃ r, Markup.encodeTokens e depth x = .ok r)
    (shallow : depth ≤ maxDepth) (written : ∃ r, Markup.encodeTokens e depth ts = .ok r) :
    ∃ r, Markup.encodeTokens e depth ts' = .ok r := by
  induction replaced generalizing depth with
  | among first last =>
    have new := exists_encodeTokens.mp (new depth shallow)
    simp only [exists_encodeTokens, List.forall_mem_append] at written ⊢
    exact ⟨written.1, new, written.2.2⟩
  | inside _ ih =>
    rw [exists_encodeTokens, List.forall_mem_append, List.forall_mem_cons,
      exists_encodeToken_span] at written ⊢
    obtain ⟨front, ⟨head, low, inner⟩, back⟩ := written
    exact ⟨front, ⟨head, low, ih low inner⟩, back⟩

/-- Tokens that are read back as themselves stay so, if the new ones do. -/
theorem Replaces.reread_eq (replaced : Replaces x ts ts') (new : ∀ t ∈ x, t.reread e = t)
    (same : ∀ t ∈ ts, t.reread e = t) : ∀ t ∈ ts', t.reread e = t := by
  induction replaced with
  | among first last =>
    simp only [List.forall_mem_append] at same ⊢
    exact ⟨same.1, new, same.2.2⟩
  | @inside pre content content' rest tag _ ih =>
    simp only [List.forall_mem_append, List.forall_mem_cons, Token.reread, Token.span.injEq,
      Token.rereadAll_eq_self_iff] at same ⊢
    exact ⟨same.1, ⟨same.2.1.1, ih same.2.1.2⟩, same.2.2⟩

end Segment

end NovelChart
