import NovelChart.Proofs.Substitution

/-!
# The segments of a tree, counted

Segments are found in one walk over the tree, which keeps no more than the first and the last run of
the stretch that is open. What comes out is a division of the text: every run, at any depth, lies
in exactly one segment, segments do not overlap, and they are listed in the order of the document.
Tokens are addressed by the places of the spans around them and their own place among siblings; in
the order of the document, addresses ascend as words do in a dictionary.

## Main definitions

* `Token.At`: the token at an address
* `Segment.Covers`: an address lies in a segment
* `Segment.Stretch`: a segment is a stretch of siblings between two runs of text
* `Segment.Partition`: segments divide up the text of a tree

## Main results

* `Segment.exists_covers`: no run of text is lost
* `Segment.pairwise_precedes`: segments are listed in the order of the document
* `Segment.pairwise_apart`: segments among the same siblings are kept apart
* `Segment.partition_ofTokens`: segments divide up the text of a tree
* `Chart.enumerates_segments`: they do so on every line of a chart, and are numbered there
-/

namespace NovelChart

/-! ### Addresses -/

namespace Token

variable {s ts : List Token} {t u : Token} {i : Nat} {address : List Nat}

/-- The token at an address: a path leads to its siblings, and its place among them comes last. -/
def At (tokens : List Token) (address : List Nat) (t : Token) : Prop :=
  ∃ path i siblings, address = path ++ [i] ∧ Segment.siblings? path tokens = some siblings ∧
    siblings[i]? = some t

theorem not_at_nil : ¬At ts [] u := by
  rintro ⟨path, i, _, same, _⟩
  exact absurd same.symm (by simp)

/-- An address leads to one of the siblings, or through one of them. -/
theorem at_cons : At ts (i :: address) u ↔ address = [] ∧ ts[i]? = some u ∨
    ∃ tag content, ts[i]? = some (.span tag content) ∧ At content address u := by
  constructor
  · rintro ⟨path, j, siblings, same, found, inside⟩
    cases path with
    | nil =>
      cases same
      cases found
      exact .inl ⟨rfl, inside⟩
    | cons k path =>
      cases same
      rw [Segment.siblings?] at found
      split at found
      · next tag content there =>
        exact .inr ⟨tag, content, there, path, j, siblings, rfl, found, inside⟩
      · cases found
  · rintro (⟨rfl, inside⟩ | ⟨tag, content, there, path, j, siblings, rfl, found, inside⟩)
    · exact ⟨[], i, ts, rfl, rfl, inside⟩
    · refine ⟨i :: path, j, siblings, rfl, ?_, inside⟩
      rw [Segment.siblings?, there]
      exact found

/-- Nothing has an address inside a token that is not there. -/
theorem not_at_of_nil : ¬At [] address u := by
  cases address with
  | nil => exact not_at_nil
  | cons i address => simp [at_cons]

/-! An address in siblings that were put together leads into one of the parts. -/

theorem at_front (before : i < s.length) :
    At (s ++ ts) (i :: address) u ↔ At s (i :: address) u := by
  rw [at_cons, at_cons, List.getElem?_append_left before]

theorem at_shift : At (s ++ ts) ((s.length + i) :: address) u ↔ At ts (i :: address) u := by
  rw [at_cons, at_cons, List.getElem?_append_right (Nat.le_add_right _ _),
    Nat.add_sub_cancel_left]

theorem at_behind :
    At (s ++ t :: ts) ((s.length + 1 + i) :: address) u ↔ At ts (i :: address) u := by
  have shifted : At ((s ++ [t]) ++ ts) (((s ++ [t]).length + i) :: address) u ↔ _ := at_shift
  rwa [List.append_assoc, List.length_append] at shifted

theorem at_here : At (s ++ t :: ts) (s.length :: address) u ↔
    address = [] ∧ t = u ∨ At t.content address u := by
  have here : (s ++ t :: ts)[s.length]? = some t := by simp
  rw [at_cons, here]
  refine or_congr (by rw [Option.some.injEq]) ?_
  cases t with
  | span tag inner => simp [content]
  | text run => simp [content, not_at_of_nil]
  | lineBreak => simp [content, not_at_of_nil]
  | pageBreak => simp [content, not_at_of_nil]
  | comment body => simp [content, not_at_of_nil]
  | mark tag => simp [content, not_at_of_nil]

end Token

namespace Segment

variable {s ts rest lead core trail : List Token} {t : Token} {seg : Segment} {n : Nat}
  {address : List Nat}

/-- An address lies in a segment. -/
def Covers (seg : Segment) (address : List Nat) : Prop :=
  ∃ i, address = seg.path ++ [i] ∧ seg.start ≤ i ∧ i < seg.stop

theorem place_enter_eq (n : Nat) (seg : Segment) :
    place [n] 0 seg = ⟨n :: seg.path, seg.start, seg.stop⟩ := by
  obtain ⟨path, start, stop⟩ := seg
  cases path with
  | nil => simp [place]
  | cons j path => simp [place]

theorem covers_enter :
    (place [n] 0 seg).Covers address ↔ ∃ inner, address = n :: inner ∧ seg.Covers inner := by
  simp [place_enter_eq, Covers]

theorem covers_shift : (place [] n seg).Covers address ↔
    ∃ i inner, address = (n + i) :: inner ∧ seg.Covers (i :: inner) := by
  obtain ⟨path, start, stop⟩ := seg
  cases path with
  | nil =>
    constructor
    · rintro ⟨i, rfl, low, high⟩
      obtain ⟨k, rfl⟩ := Nat.exists_eq_add_of_le (Nat.le_of_add_right_le low)
      exact ⟨k, [], rfl, k, rfl, Nat.le_of_add_le_add_left low, Nat.lt_of_add_lt_add_left high⟩
    · rintro ⟨i, inner, rfl, k, same, low, high⟩
      cases same
      exact ⟨n + i, rfl, Nat.add_le_add_left low n, Nat.add_lt_add_left high n⟩
  | cons j path =>
    constructor
    · rintro ⟨i, rfl, low, high⟩
      exact ⟨j, path ++ [i], rfl, i, rfl, low, high⟩
    · rintro ⟨i, inner, rfl, k, same, low, high⟩
      cases same
      exact ⟨k, rfl, low, high⟩

/-! ### No run is lost -/

/-- The segment of a stretch, if it has one. -/
theorem eq_of_mem_stretch (dense : ∀ t ∈ s, t.isPlain = true) (member : seg ∈ ofTokens s) :
    ∃ lead core trail, Cut s lead core trail ∧
      seg = ⟨[], lead.length, lead.length + core.length⟩ := by
  rcases exists_cut dense with breaks | ⟨lead, core, trail, cut⟩
  · rw [ofTokens_breaks breaks] at member
    cases member
  · rw [ofTokens_cut dense cut] at member
    exact ⟨lead, core, trail, cut, List.mem_singleton.mp member⟩

/-- A stretch has no tokens below its own. -/
theorem at_stretch (dense : ∀ t ∈ s, t.isPlain = true) (found : Token.At s address t) :
    ∃ i, address = [i] ∧ s[i]? = some t := by
  cases address with
  | nil => exact absurd found Token.not_at_nil
  | cons i address =>
    rcases Token.at_cons.mp found with ⟨rfl, inside⟩ | ⟨tag, content, there, _⟩
    · exact ⟨i, rfl, inside⟩
    · cases dense _ (List.mem_of_getElem? there)

/-- A run of a stretch lies in its segment, since nothing but line breaks lies outside. -/
theorem covers_cut {i : Nat} {run : String} (cut : Cut s lead core trail)
    (found : s[i]? = some (.text run)) :
    Covers ⟨[], lead.length, lead.length + core.length⟩ [i] := by
  refine ⟨i, rfl, ?_, ?_⟩
  · by_contra before
    rw [cut.whole, List.getElem?_append_left (Nat.not_le.mp before)] at found
    cases cut.lead _ (List.mem_of_getElem? found)
  · by_contra behind
    rw [cut.whole, ← List.append_assoc, List.getElem?_append_right (by
      rw [List.length_append]; exact Nat.not_lt.mp behind)] at found
    cases cut.trail _ (List.mem_of_getElem? found)

/-- Every run of text lies in a segment. -/
theorem exists_covers (ts : List Token) : ∀ {address : List Nat} {run : String},
    Token.At ts address (.text run) → ∃ seg ∈ ofTokens ts, seg.Covers address := by
  -- A run of a stretch leads to the segment of the stretch.
  have stretch : ∀ {s : List Token}, (∀ t ∈ s, t.isPlain = true) → ∀ {address run},
      Token.At s address (.text run) → ∃ seg ∈ ofTokens s, seg.Covers address := by
    intro s dense address run found
    obtain ⟨i, rfl, inside⟩ := at_stretch dense found
    rcases exists_cut dense with breaks | ⟨lead, core, trail, cut⟩
    · cases breaks _ (List.mem_of_getElem? inside)
    · rw [ofTokens_cut dense cut]
      exact ⟨_, List.mem_singleton_self _, covers_cut cut inside⟩
  induction ts using chunkInduction with
  | plain s dense => exact stretch dense
  | chunk s t rest dense other inner behind =>
    intro address run found
    rw [ofTokens_chunk dense other]
    simp only [List.mem_append, List.mem_map]
    cases address with
    | nil => exact absurd found Token.not_at_nil
    | cons i address =>
      -- The first number of the address leads into the stretch, into the token, or behind it.
      rcases Nat.lt_trichotomy i s.length with before | rfl | after
      · obtain ⟨seg, member, covers⟩ := stretch dense ((Token.at_front before).mp found)
        exact ⟨seg, .inl member, covers⟩
      · rcases Token.at_here.mp found with ⟨_, rfl⟩ | found
        · -- The token itself is no run.
          cases other
        · obtain ⟨seg, member, covers⟩ := inner found
          exact ⟨_, .inr (.inl ⟨seg, member, rfl⟩), covers_enter.mpr ⟨_, rfl, covers⟩⟩
      · obtain ⟨j, rfl⟩ := Nat.exists_eq_add_of_lt after
        rw [Nat.add_right_comm] at found ⊢
        obtain ⟨seg, member, covers⟩ := behind (Token.at_behind.mp found)
        exact ⟨_, .inr (.inr ⟨seg, member, rfl⟩), covers_shift.mpr ⟨_, _, rfl, covers⟩⟩

/-! ### The order of the document -/

/-- All of a segment comes before all of another one, in the order of the document. -/
def Precedes (a b : Segment) : Prop :=
  ∀ x y, a.Covers x → b.Covers y → x < y

theorem Precedes.enter {a b : Segment} (before : a.Precedes b) (n : Nat) :
    (place [n] 0 a).Precedes (place [n] 0 b) := by
  intro _ _ covers covers'
  obtain ⟨x, rfl, first⟩ := covers_enter.mp covers
  obtain ⟨y, rfl, second⟩ := covers_enter.mp covers'
  exact List.cons_lt_cons_iff.mpr (.inr ⟨rfl, before x y first second⟩)

theorem Precedes.shift {a b : Segment} (before : a.Precedes b) (n : Nat) :
    (place [] n a).Precedes (place [] n b) := by
  intro _ _ covers covers'
  obtain ⟨i, x, rfl, first⟩ := covers_shift.mp covers
  obtain ⟨j, y, rfl, second⟩ := covers_shift.mp covers'
  rcases List.cons_lt_cons_iff.mp (before _ _ first second) with less | ⟨rfl, less⟩
  · exact List.cons_lt_cons_iff.mpr (.inl (Nat.add_lt_add_left less n))
  · exact List.cons_lt_cons_iff.mpr (.inr ⟨rfl, less⟩)

/-- What lies in a stretch stands among the outermost siblings. -/
theorem covers_stretch (dense : ∀ t ∈ s, t.isPlain = true) (member : seg ∈ ofTokens s)
    (covers : seg.Covers address) : ∃ i, address = [i] ∧ i < s.length := by
  obtain ⟨lead, core, trail, cut, rfl⟩ := eq_of_mem_stretch dense member
  obtain ⟨i, rfl, _, high⟩ := covers
  refine ⟨i, rfl, Nat.lt_of_lt_of_le high ?_⟩
  rw [cut.whole, List.length_append, List.length_append]
  exact Nat.add_le_add_left (Nat.le_add_right _ _) _

theorem pairwise_stretch {R : Segment → Segment → Prop} (dense : ∀ t ∈ s, t.isPlain = true) :
    (ofTokens s).Pairwise R := by
  rcases exists_cut dense with breaks | ⟨lead, core, trail, cut⟩
  · rw [ofTokens_breaks breaks]
    exact .nil
  · rw [ofTokens_cut dense cut]
    exact List.pairwise_singleton ..

/-- The segments of a tree are listed in the order of the document. -/
theorem pairwise_precedes (ts : List Token) : (ofTokens ts).Pairwise Precedes := by
  induction ts using chunkInduction with
  | plain s dense => exact pairwise_stretch dense
  | chunk s t rest dense other inner behind =>
    rw [ofTokens_chunk dense other]
    refine List.pairwise_append.mpr ⟨pairwise_stretch dense, List.pairwise_append.mpr
      ⟨List.pairwise_map.mpr (inner.imp fun before => before.enter _),
        List.pairwise_map.mpr (behind.imp fun before => before.shift _), ?_⟩, ?_⟩
    · -- What is inside the token comes before the rest.
      rintro a first b second x y covers covers'
      obtain ⟨a, _, rfl⟩ := List.mem_map.mp first
      obtain ⟨b, _, rfl⟩ := List.mem_map.mp second
      obtain ⟨x, rfl, _⟩ := covers_enter.mp covers
      obtain ⟨j, y, rfl, _⟩ := covers_shift.mp covers'
      exact List.cons_lt_cons_iff.mpr (.inl (by omega))
    · -- The stretch in front comes before both.
      rintro a first b second x y covers covers'
      obtain ⟨i, rfl, high⟩ := covers_stretch dense first covers
      rcases List.mem_append.mp second with second | second
      · obtain ⟨b, _, rfl⟩ := List.mem_map.mp second
        obtain ⟨y, rfl, _⟩ := covers_enter.mp covers'
        exact List.cons_lt_cons_iff.mpr (.inl high)
      · obtain ⟨b, _, rfl⟩ := List.mem_map.mp second
        obtain ⟨j, y, rfl, _⟩ := covers_shift.mp covers'
        exact List.cons_lt_cons_iff.mpr (.inl (by omega))

/-- No address lies in two segments. -/
theorem eq_of_covers {segs : List Segment} (ordered : segs.Pairwise Precedes) {i j : Nat}
    {a b : Segment} (first : segs[i]? = some a) (second : segs[j]? = some b)
    (covers : a.Covers address) (covers' : b.Covers address) : i = j := by
  obtain ⟨low, rfl⟩ := List.getElem?_eq_some_iff.mp first
  obtain ⟨low', rfl⟩ := List.getElem?_eq_some_iff.mp second
  rw [List.pairwise_iff_getElem] at ordered
  rcases Nat.lt_trichotomy i j with less | same | less
  · exact absurd (ordered i j low low' less _ _ covers covers') (List.lt_irrefl _)
  · exact same
  · exact absurd (ordered j i low' low less _ _ covers' covers) (List.lt_irrefl _)

/-! ### What keeps segments apart -/

/-- If two segments have the same siblings, one of these that is not plain stands between them. -/
def Apart (ts : List Token) (a b : Segment) : Prop :=
  a.path = b.path → ∃ i t, a.stop ≤ i ∧ i < b.start ∧ Token.At ts (a.path ++ [i]) t ∧
    t.isPlain = false

theorem Apart.enter {a b : Segment} (apart : Apart t.content a b) (s rest : List Token) :
    Apart (s ++ t :: rest) (place [s.length] 0 a) (place [s.length] 0 b) := by
  rw [place_enter_eq, place_enter_eq]
  intro same
  obtain ⟨i, u, low, high, there, other⟩ := apart (List.cons.inj same).2
  exact ⟨i, u, low, high, Token.at_here.mpr (.inr there), other⟩

theorem Apart.shift {a b : Segment} (apart : Apart rest a b) (s : List Token) (t : Token) :
    Apart (s ++ t :: rest) (place [] (s.length + 1) a) (place [] (s.length + 1) b) := by
  obtain ⟨path, start, stop⟩ := a
  obtain ⟨path', start', stop'⟩ := b
  intro same
  cases path with
  | nil =>
    cases path' with
    | nil =>
      obtain ⟨i, u, low, high, there, other⟩ := apart rfl
      exact ⟨s.length + 1 + i, u, Nat.add_le_add_left low _, Nat.add_lt_add_left high _,
        Token.at_behind.mpr there, other⟩
    | cons j path' => cases same
  | cons j path =>
    cases path' with
    | nil => cases same
    | cons k path' =>
      obtain ⟨first, rfl⟩ := List.cons.inj same
      obtain rfl := Nat.add_left_cancel first
      obtain ⟨i, u, low, high, there, other⟩ := apart rfl
      exact ⟨i, u, low, high, Token.at_behind.mpr there, other⟩

/-- Segments among the same siblings are kept apart. -/
theorem pairwise_apart (ts : List Token) : (ofTokens ts).Pairwise (Apart ts) := by
  induction ts using chunkInduction with
  | plain s dense => exact pairwise_stretch dense
  | chunk s t rest dense other inner behind =>
    rw [ofTokens_chunk dense other]
    refine List.pairwise_append.mpr ⟨pairwise_stretch dense, List.pairwise_append.mpr
      ⟨List.pairwise_map.mpr (inner.imp fun apart => apart.enter s rest),
        List.pairwise_map.mpr (behind.imp fun apart => apart.shift s t), ?_⟩, ?_⟩
    · -- What is inside the token has other siblings than the rest.
      rintro a first b second same
      obtain ⟨a, _, rfl⟩ := List.mem_map.mp first
      obtain ⟨⟨path, _, _⟩, _, rfl⟩ := List.mem_map.mp second
      rw [place_enter_eq] at same
      cases path with
      | nil => cases same
      | cons j path => exact absurd (List.cons.inj same).1 (by omega)
    · rintro a first b second same
      obtain ⟨lead, core, trail, cut, rfl⟩ := eq_of_mem_stretch dense first
      rcases List.mem_append.mp second with second | second
      · -- What is inside the token has other siblings than the stretch, too.
        obtain ⟨b, _, rfl⟩ := List.mem_map.mp second
        rw [place_enter_eq] at same
        cases same
      · -- The token that ends the stretch stands between it and the rest.
        obtain ⟨⟨path, start, stop⟩, _, rfl⟩ := List.mem_map.mp second
        cases path with
        | nil =>
          refine ⟨s.length, t, ?_, ?_, Token.at_here.mpr (.inl ⟨rfl, rfl⟩), other⟩
          · rw [cut.whole, List.length_append, List.length_append]
            exact Nat.add_le_add_left (Nat.le_add_right _ _) _
          · exact Nat.lt_of_lt_of_le (Nat.lt_succ_self _) (Nat.le_add_right _ _)
        | cons j path => cases same

/-! ### Stretches of siblings -/

/-- The path of a segment leads to siblings, and among them the segment is a stretch of plain tokens
with a run of text at both ends. -/
structure Stretch (ts : List Token) (seg : Segment) (front core back : List Token) : Prop where
  siblings : siblings? seg.path ts = some (front ++ (core ++ back))
  start : seg.start = front.length
  stop : seg.stop = front.length + core.length
  plain : ∀ t ∈ core, t.isPlain = true
  first : ∃ run rest, core = .text run :: rest
  last : ∃ rest run, core = rest ++ [.text run]

theorem Cut.stretch (cut : Cut s lead core trail) (dense : ∀ t ∈ s, t.isPlain = true)
    (rest : List Token) :
    Stretch (s ++ rest) ⟨[], lead.length, lead.length + core.length⟩ lead core (trail ++ rest) where
  siblings := by
    rw [siblings?, cut.whole]
    simp only [List.append_assoc]
  start := rfl
  stop := rfl
  plain t member := by
    refine dense t ?_
    rw [cut.whole]
    exact List.mem_append_right _ (List.mem_append_left _ member)
  first := cut.first
  last := cut.last

variable {front back : List Token}

theorem Stretch.enter {tag : Tag} {content : List Token}
    (held : Stretch content seg front core back) (s rest : List Token) :
    Stretch (s ++ .span tag content :: rest) (place [s.length] 0 seg) front core back := by
  rw [place_enter_eq]
  refine ⟨?_, held.start, held.stop, held.plain, held.first, held.last⟩
  rw [siblings?, List.getElem?_append_right (Nat.le_refl _), Nat.sub_self]
  exact held.siblings

theorem Stretch.shift (held : Stretch rest seg front core back) (s : List Token) :
    ∃ front', Stretch (s ++ rest) (place [] s.length seg) front' core back := by
  obtain ⟨path, start, stop⟩ := seg
  obtain ⟨siblings, rfl, rfl, plain, first, last⟩ := held
  -- Only a segment among the outermost siblings is moved; for others the path is another one.
  cases path with
  | nil =>
    cases siblings
    refine ⟨s ++ front, ?_, ?_, ?_, plain, first, last⟩
    · rw [List.append_assoc]
      rfl
    · rw [List.length_append]
      rfl
    · rw [List.length_append, Nat.add_assoc]
      rfl
  | cons j path =>
    have moved : (s ++ rest)[s.length + j]? = rest[j]? := by
      rw [List.getElem?_append_right (Nat.le_add_right _ _), Nat.add_sub_cancel_left]
    refine ⟨front, ?_, rfl, rfl, plain, first, last⟩
    simp only [place, List.nil_append, siblings?, moved]
    exact siblings

/-- Every segment is a stretch of siblings. -/
theorem exists_stretch (ts : List Token) :
    ∀ seg ∈ ofTokens ts, ∃ front core back, Stretch ts seg front core back := by
  induction ts using chunkInduction with
  | plain s dense =>
    intro seg member
    obtain ⟨lead, core, trail, cut, rfl⟩ := eq_of_mem_stretch dense member
    have held := cut.stretch dense []
    rw [List.append_nil] at held
    exact ⟨_, _, _, held⟩
  | chunk s t rest dense other inner behind =>
    intro seg member
    rw [ofTokens_chunk dense other, List.mem_append, List.mem_append] at member
    rcases member with first | within | last
    · obtain ⟨lead, core, trail, cut, rfl⟩ := eq_of_mem_stretch dense first
      exact ⟨_, _, _, cut.stretch dense (t :: rest)⟩
    · obtain ⟨seg, member, rfl⟩ := List.mem_map.mp within
      rcases content_cases other with ⟨tag, content, rfl⟩ | empty
      · obtain ⟨front, core, back, held⟩ := inner seg member
        exact ⟨_, _, _, held.enter s rest⟩
      · rw [empty] at member
        cases member
    · obtain ⟨seg, member, rfl⟩ := List.mem_map.mp last
      obtain ⟨front, core, back, held⟩ := behind seg member
      obtain ⟨front', held⟩ := held.shift (s ++ [t])
      rw [List.append_assoc, List.length_append] at held
      exact ⟨_, _, _, held⟩

/-! ### The segments of a tree and of a chart -/

/-- Segments divide up the text of a token tree. -/
structure Partition (ts : List Token) (segs : List Segment) : Prop where
  /-- Each of them is a stretch of siblings, plain tokens between two runs of text. -/
  stretch : ∀ seg ∈ segs, ∃ front core back, Stretch ts seg front core back
  /-- Every run of text, at any depth, lies in exactly one of them. -/
  covers : ∀ address run, Token.At ts address (.text run) →
    ∃! i : Nat, ∃ seg : Segment, segs[i]? = some seg ∧ seg.Covers address
  /-- They do not overlap, and they are listed in the order of the document. -/
  ordered : segs.Pairwise Precedes
  /-- Between those that have the same siblings, there is one that is not plain. -/
  apart : segs.Pairwise (Apart ts)

theorem partition_ofTokens (ts : List Token) : Partition ts (ofTokens ts) where
  stretch := exists_stretch ts
  covers address run found := by
    obtain ⟨seg, member, covers⟩ := exists_covers ts found
    obtain ⟨i, there⟩ := List.mem_iff_getElem?.mp member
    refine ⟨i, ⟨seg, there, covers⟩, ?_⟩
    rintro j ⟨other, there', covers'⟩
    exact eq_of_covers (pairwise_precedes ts) there' there covers' covers
  ordered := pairwise_precedes ts
  apart := pairwise_apart ts

/-- Line breaks at the ends of a stretch stay outside, and a span parts its siblings. -/
example (tag : Tag) : ofTokens [.lineBreak, .text "a", .lineBreak, .text "b", .lineBreak,
    .span tag [.text "c", .lineBreak], .lineBreak, .text "d"] =
      [⟨[], 1, 4⟩, ⟨[5], 0, 1⟩, ⟨[], 7, 8⟩] := by
  rfl

end Segment

/-- Out of lists that are put together in ascending order, one is taken by its key. -/
theorem filter_flatMap_range {α : Type} {f : Nat → List α} {key : α → Nat}
    (keyed : ∀ i, ∀ x ∈ f i, key x = i) {k n : Nat} (low : k < n) :
    ((List.range n).flatMap f).filter (fun x => key x = k) = f k := by
  have single : ∀ i, (f i).filter (fun x => key x = k) = if i = k then f k else [] := by
    intro i
    by_cases here : i = k
    · subst here
      rw [if_pos rfl]
      exact List.filter_eq_self.mpr fun x member => decide_eq_true (keyed i x member)
    · rw [if_neg here]
      refine List.filter_eq_nil_iff.mpr fun x member => ?_
      rw [decide_eq_true_eq, keyed i x member]
      exact here
  rw [List.filter_flatMap]
  induction n with
  | zero => cases low
  | succ n ih =>
    rw [List.range_succ, List.flatMap_append, List.flatMap_singleton, single]
    by_cases here : n = k
    · -- No earlier list has the key.
      subst here
      have none : (List.range n).flatMap (fun i => (f i).filter fun x => key x = n) = [] := by
        refine List.flatMap_eq_nil_iff.mpr fun i member => ?_
        rw [single, if_neg (Nat.ne_of_lt (List.mem_range.mp member))]
      rw [none, if_pos rfl, List.nil_append]
    · rw [if_neg here, List.append_nil, ih (by omega)]

namespace Chart

/-- The listed texts of a line are those of its segments, numbered from zero on. -/
theorem filter_texts {c : Chart} {line : Nat} {block : TextBlock} (there : c.block line = .ok block)
    (name : String) :
    ((c.texts name).filter fun x => x.1.line = line).map (fun x => (x.1, some x.2)) =
      (Segment.ofTokens block.tokens).zipIdx.map fun x =>
        (⟨name, line, x.2⟩, x.1.text? block.tokens) := by
  obtain ⟨command, found, _⟩ := block_eq_ok.mp there
  obtain ⟨low, _⟩ := List.getElem?_eq_some_iff.mp found
  have counted := zipIdx_texts block
  rw [Segment.texts, List.zipIdx_map] at counted
  have placed := congrArg (List.map fun x => (TextId.mk name line x.2, x.1)) counted
  rw [List.map_map, List.map_map] at placed
  rw [texts_eq_lines, filter_flatMap_range (fun _ _ member => (TextId.mem_onLine member).1) low,
    TextId.onLine, lineTexts_of_block there, zipIdx_lineTexts, List.map_map, List.map_map]
  exact placed.symm

/-- Segments divide up the text of every tree, whatever its shape, and a chart numbers the segments
of each line from zero on, in ascending order of line and number. -/
theorem enumerates_segments :
    (∀ tokens, Segment.Partition tokens (Segment.ofTokens tokens)) ∧
      ∀ (c : Chart) (name : String),
        ((c.texts name).Pairwise fun x y => x.1.Before y.1) ∧
        (∀ x ∈ c.texts name, x.1.name = name ∧ ∃ block, c.block x.1.line = .ok block) ∧
        ∀ line block, c.block line = .ok block →
          ((c.texts name).filter fun x => x.1.line = line).map (fun x => (x.1, some x.2)) =
            (Segment.ofTokens block.tokens).zipIdx.map fun x =>
              (⟨name, line, x.2⟩, x.1.text? block.tokens) := by
  refine ⟨Segment.partition_ofTokens, fun c name => ⟨c.pairwise_texts name, ?_, ?_⟩⟩
  · rintro ⟨id, text⟩ member
    obtain ⟨named, block, _, there, _⟩ := mem_texts.mp member
    exact ⟨named, block, there⟩
  · intro line block there
    exact filter_texts there name

end Chart

end NovelChart
