import NovelChart.Proofs.ReadBack
import NovelChart.Proofs.Writable

/-!
# What a script compiles to

Scripts are written by hand, so the compiler has to take in anything. What it lets through is
canonical on every layer: markup comes out of the table, a run ends where markup begins, and a span
that would lie too deep is refused when it opens. The builder holds layers that are still open, so
the invariant speaks of each of them with the room that is left at its depth. The encoder, which
checks all of this again, then has nothing to refuse but a character.

## Main definitions

* `Token.Layer`: the tokens of one layer, with room for layers inside
* `Script.Piece.Genuine`: a piece that scanning can produce
* `Script.Builder.Sound`: all layers that a builder holds are in order

## Main results

* `Script.genuine_scan`: scanning produces genuine pieces only
* `Script.Builder.Sound.step`: taking in a genuine piece keeps the builder sound
* `Script.compile_writable`: a script compiles to canonical tokens, which are written unless the
  encoding lacks a character
-/

namespace NovelChart

/-! ### Layers -/

namespace Token

theorem depthAll_append (ts us : List Token) :
    depthAll (ts ++ us) = max (depthAll ts) (depthAll us) := by
  induction ts with
  | nil => simp [depthAll]
  | cons t ts ih => rw [List.cons_append, depthAll, ih, depthAll, Nat.max_assoc]

/-- The tokens of one layer of a script, with room for a number of layers inside. -/
structure Layer (keep : Bool) (room : Nat) (ts : List Token) : Prop where
  canon : AllCanonical ts
  /-- Comments are there only if they are kept. -/
  kept : keep = false → anyComment ts = false
  shallow : depthAll ts ≤ room

variable {keep : Bool} {room : Nat} {ts us : List Token} {t : Token}

theorem layer_nil : Layer keep room [] :=
  ⟨trivial, fun _ => rfl, Nat.zero_le room⟩

theorem layer_singleton (canon : t.IsCanonical) (kept : keep = false → t.hasComment = false)
    (shallow : t.depth ≤ room) : Layer keep room [t] := by
  refine ⟨⟨canon, ?_, trivial⟩, ?_, ?_⟩
  · rintro _ _ ⟨⟩
  · intro dropped
    rw [anyComment, kept dropped, anyComment, Bool.or_false]
  · rw [depthAll, depthAll, Nat.max_zero]
    exact shallow

theorem Layer.append (first : Layer keep room ts) (second : Layer keep room us)
    (apart : ∀ t ∈ ts.getLast?, t.isText = true → ∀ u ∈ us.head?, u.isText = false) :
    Layer keep room (ts ++ us) := by
  refine ⟨allCanonical_append.mpr ⟨first.canon, second.canon, apart⟩, ?_, ?_⟩
  · intro dropped
    rw [anyComment_append, first.kept dropped, second.kept dropped, Bool.or_false]
  · rw [depthAll_append]
    exact max_le first.shallow second.shallow

end Token

namespace Script

open Token (Layer)

/-! ### Pieces -/

/-- The markup is spelled as the table spells it. -/
inductive Markup.Genuine : Markup → Prop
  | lineBreak : Genuine (.token .lineBreak)
  | pageBreak : Genuine (.token .pageBreak)
  | mark {tag : Tag} {spec : TagSpec} : tag.IsCanonical spec → spec.paired = false →
      Genuine (.token (.mark tag))
  | opening {spec : TagSpec} {attrs : List (String × String)} :
      Tag.IsCanonical ⟨spec.name, attrs⟩ spec → spec.paired = true → Genuine (.opening spec attrs)
  | closing (name : String) : Genuine (.closing name)

theorem Markup.genuine_ofTag {name : String} {attrs : List (String × String)} {m : Markup}
    (made : ofTag name attrs = .ok m) : m.Genuine := by
  rw [ofTag] at made
  split at made
  · split at made
    · cases made
      split
      · exact .lineBreak
      · exact .pageBreak
    · cases made
  · split at made
    · cases made
    · next spec found =>
      split at made
      · cases made
      · next out normal =>
        have canon :=
          TagSpec.isCanonical_of_normalize (TagSpec.mem_table_of_ofName? found) normal
        split at made
        · next paired =>
          cases made
          exact .opening canon paired
        · next single =>
          cases made
          exact .mark canon (Bool.not_eq_true _ ▸ single)

theorem Markup.genuine_parse {body : List Char} {m : Markup} (parsed : parse body = .ok m) :
    m.Genuine := by
  rw [parse] at parsed
  split at parsed
  · simp only [refuse_eq_ok] at parsed
    obtain ⟨_, made⟩ := parsed
    cases made
    exact .closing _
  · simp only [refuse_eq_ok] at parsed
    obtain ⟨_, parsed⟩ := parsed
    split at parsed
    · cases parsed
    · exact genuine_ofTag parsed

/-- A piece that scanning can produce. -/
def Piece.Genuine : Piece → Prop
  | .char _ => True
  | .comment body => ∀ c ∈ body.toList, c ≠ '\r' ∧ c ≠ '\n'
  | .markup _ m => m.Genuine

/-- What the scanner has collected of a comment holds no line end. -/
def Mode.Plain : Mode → Prop
  | .comment body => ∀ c ∈ body, c ≠ '\r' ∧ c ≠ '\n'
  | _ => True

theorem genuine_comment {body : List Char} (plain : (Mode.comment body).Plain) :
    (Piece.comment (String.ofList body.reverse)).Genuine := by
  intro c member
  rw [String.toList_ofList, List.mem_reverse] at member
  exact plain c member

theorem genuine_cons {p : Piece} {s : Scanned} (first : p.Genuine)
    (rest : ∀ q ∈ s.pieces, q.Genuine) : ∀ q ∈ (s.cons p).pieces, q.Genuine := by
  intro q member
  rcases List.mem_cons.mp member with rfl | later
  · exact first
  · exact rest q later

theorem genuine_stop (line : Nat) (tag : Option String) (f : ScriptFault) :
    ∀ p ∈ (stop line tag f).pieces, p.Genuine := by
  rintro _ ⟨⟩

/-- From any place of a script on, all pieces are genuine. -/
theorem genuine_scanFrom (mode : Mode) (line : Nat) (cs : List Char) (plain : mode.Plain) :
    ∀ p ∈ (scanFrom mode line cs).pieces, p.Genuine := by
  induction cs generalizing mode line with
  | nil =>
    cases mode with
    | comment body =>
      intro p member
      cases List.mem_singleton.mp member
      exact genuine_comment plain
    | text fresh => rintro _ ⟨⟩
    | escape => exact genuine_stop _ _ _
    | tag start body quoted => exact genuine_stop _ _ _
    | tagEscape start body => exact genuine_stop _ _ _
  | cons c cs ih =>
    cases mode with
    | text fresh =>
      rw [scanFrom]
      split_ifs
      · exact ih _ _ trivial
      · exact ih _ _ trivial
      · exact ih (.comment []) _ (by rintro _ ⟨⟩)
      · exact ih _ _ trivial
      · exact ih _ _ trivial
      · exact genuine_cons trivial (ih _ _ trivial)
    | comment body =>
      rw [scanFrom]
      split_ifs with feed ret
      · exact genuine_cons (genuine_comment plain) (ih _ _ trivial)
      · exact ih (.comment body) _ plain
      · refine ih (.comment (c :: body)) _ fun d member => ?_
        rcases List.mem_cons.mp member with rfl | earlier
        · exact ⟨ret, feed⟩
        · exact plain d earlier
    | escape =>
      rw [scanFrom]
      split
      · exact genuine_cons trivial (ih _ _ trivial)
      · exact genuine_stop _ _ _
    | tag start body quoted =>
      rw [scanFrom]
      split
      · split
        · next m parsed => exact genuine_cons (Markup.genuine_parse parsed) (ih _ _ trivial)
        · exact genuine_stop _ _ _
      · split
        · exact ih _ _ trivial
        · exact ih _ _ trivial
    | tagEscape start body =>
      rw [scanFrom]
      exact ih _ _ trivial

/-- Scanning a script produces genuine pieces only. -/
theorem genuine_scan (source : String) : ∀ p ∈ (scan source).pieces, p.Genuine :=
  genuine_scanFrom (.text true) 1 source.toList trivial

/-! ### Builders -/

/-- The layers around a place, innermost first, are in order: each was left by a canonical tag that
encloses content, and none lies too deep. -/
def Frames (keep : Bool) : List Frame → Prop
  | [] => True
  | frame :: stack => stack.length < maxDepth ∧
      (∃ spec, frame.tag.IsCanonical spec ∧ spec.paired = true) ∧
      Layer keep (maxDepth - stack.length) frame.before.reverse ∧ Frames keep stack

namespace Builder

/-- All layers that the builder holds are in order, and a run of text may follow. -/
structure Sound (keep : Bool) (b : Builder) : Prop where
  layer : Layer keep (maxDepth - b.stack.length) b.tokens.reverse
  apart : ∀ t ∈ b.tokens.head?, t.isText = false
  frames : Frames keep b.stack

variable {keep : Bool} {b b' : Builder} {t : Token}

theorem sound_new (keep : Bool) : Sound keep {} :=
  ⟨Token.layer_nil, by rintro _ ⟨⟩, trivial⟩

/-- The layer stays in order when the current run ends. -/
theorem Sound.layer_flush (sound : b.Sound keep) :
    Layer keep (maxDepth - b.stack.length) b.flush.tokens.reverse := by
  rw [flush_tokens, runToken]
  split
  · rw [List.append_nil]
    exact sound.layer
  · next filled =>
    refine sound.layer.append (Token.layer_singleton ?_ (fun _ => rfl) (Nat.zero_le _)) ?_
    · intro empty
      rw [String.ofList_eq_empty_iff] at empty
      exact filled (List.reverse_eq_nil_iff.mp empty)
    · intro u last isText
      rw [List.getLast?_reverse] at last
      cases (sound.apart u last).symm.trans isText

/-- A token that is no run of text ends the run before it. -/
theorem Sound.push (sound : b.Sound keep) (plain : t.isText = false)
    (single : Layer keep (maxDepth - b.stack.length) [t]) : (b.push t).Sound keep := by
  have stack : (b.push t).stack = b.stack := flush_stack
  refine ⟨?_, ?_, ?_⟩
  · rw [stack, Builder.push, List.reverse_cons]
    refine sound.layer_flush.append single ?_
    rintro _ _ _ _ ⟨⟩
    exact plain
  · rintro _ ⟨⟩
    exact plain
  · rw [stack]
    exact sound.frames

theorem Sound.enter (sound : b.Sound keep) (low : b.stack.length < maxDepth) {tag : Tag}
    {spec : TagSpec} (canon : tag.IsCanonical spec) (paired : spec.paired = true) :
    (b.enter tag).Sound keep := by
  refine ⟨Token.layer_nil, by rintro _ ⟨⟩, ?_⟩
  rw [Builder.enter, flush_stack]
  exact ⟨low, ⟨spec, canon, paired⟩, sound.layer_flush, sound.frames⟩

/-- A span that closes takes up one layer of the room around it. -/
theorem Sound.close {frame : Frame} {stack : List Frame} (sound : b.Sound keep)
    (top : b.stack = frame :: stack) :
    Sound keep ⟨stack, .span frame.tag b.flush.tokens.reverse :: frame.before, []⟩ := by
  have content := sound.layer_flush
  obtain ⟨low, tag, before, outer⟩ : Frames keep (frame :: stack) := top ▸ sound.frames
  rw [top, List.length_cons] at content
  refine ⟨?_, by rintro _ ⟨⟩; rfl, outer⟩
  rw [List.reverse_cons]
  refine before.append (Token.layer_singleton ⟨tag, content.canon⟩ content.kept ?_) ?_
  · have shallow := content.shallow
    rw [Token.depth]
    omega
  · rintro _ _ _ _ ⟨⟩
    rfl

/-- Taking in a genuine piece keeps the builder sound. -/
theorem Sound.step {p : Piece} (sound : b.Sound keep) (genuine : p.Genuine)
    (stepped : b.step keep p = .ok b') : b'.Sound keep := by
  cases p with
  | char c =>
    cases stepped
    exact ⟨sound.layer, sound.apart, sound.frames⟩
  | comment body =>
    cases stepped
    split
    · next kept =>
      refine sound.push rfl (Token.layer_singleton genuine ?_ (Nat.zero_le _))
      intro dropped
      cases kept.symm.trans dropped
    · exact sound
  | markup line m =>
    cases genuine with
    | lineBreak =>
      cases stepped
      exact sound.push rfl (Token.layer_singleton trivial (fun _ => rfl) (Nat.zero_le _))
    | pageBreak =>
      cases stepped
      exact sound.push rfl (Token.layer_singleton trivial (fun _ => rfl) (Nat.zero_le _))
    | mark canon single =>
      cases stepped
      exact sound.push rfl
        (Token.layer_singleton ⟨_, canon, single⟩ (fun _ => rfl) (Nat.zero_le _))
    | opening canon paired =>
      rw [Builder.step, refuse_eq_ok] at stepped
      obtain ⟨low, entered⟩ := stepped
      cases entered
      exact sound.enter (Nat.lt_of_not_le low) canon paired
    | closing name =>
      rw [Builder.step] at stepped
      split at stepped
      · cases stepped
      · next frame stack top =>
        split at stepped
        · cases stepped
          exact sound.close top
        · cases stepped

theorem Sound.foldlM {pieces : List Piece} (sound : b.Sound keep)
    (genuine : ∀ p ∈ pieces, p.Genuine)
    (built : pieces.foldlM (Builder.step keep) b = .ok b') : b'.Sound keep := by
  induction pieces generalizing b with
  | nil =>
    cases built
    exact sound
  | cons p pieces ih =>
    rw [List.foldlM_cons, bind_eq_ok] at built
    obtain ⟨b₁, stepped, built⟩ := built
    have next := sound.step (genuine p List.mem_cons_self) stepped
    exact ih next (fun q later => genuine q (List.mem_cons_of_mem _ later)) built

/-- What a sound builder finishes is a layer with all the room there is. -/
theorem Sound.finish {ending : Ending} {tokens : List Token} (sound : b.Sound keep)
    (finished : b.finish ending = .ok tokens) : Layer keep maxDepth tokens := by
  cases ending with
  | fault e => cases finished
  | finish line =>
    rw [Builder.finish] at finished
    split at finished
    · next empty =>
      cases finished
      have layer := sound.layer_flush
      rwa [empty] at layer
    · cases finished

end Builder

/-! ### Compiling -/

/-- A script compiles to one layer of tokens, with all the room there is. -/
theorem layer_compile {keep : Bool} {source : String} {tokens : List Token}
    (compiled : compile keep source = .ok tokens) : Layer keep maxDepth tokens := by
  rw [compile, build, bind_eq_ok] at compiled
  obtain ⟨b, built, finished⟩ := compiled
  exact ((Builder.sound_new keep).foldlM (genuine_scan source) built).finish finished

/-- What a script compiles to can be written. Its tokens are canonical on every layer, hold comments
only if these are kept, and are nested at most 64 deep. A block of them, of any version with three
digits, is therefore written in an encoding exactly when the encoding has all characters of its
runs and text attributes, and refused for one of these characters otherwise. -/
theorem compile_writable {keep : Bool} {source : String} {tokens : List Token}
    (compiled : compile keep source = .ok tokens) :
    Token.AllCanonical tokens ∧ (keep = false → Token.anyComment tokens = false) ∧
      Token.depthAll tokens ≤ 64 ∧
      ∀ (version : UInt16) (e : Encoding), version.toNat ≤ 999 →
        ((∃ bytes, TextBlock.encode e ⟨version, tokens⟩ = .ok bytes) ↔
          ∀ c ∈ Token.writtenAll tokens, (e.encodeChar c).isSome = true) ∧
        ∀ cause, TextBlock.encode e ⟨version, tokens⟩ = .error cause →
          ∃ c ∈ Token.writtenAll tokens, e.encodeChar c = none ∧
            cause = .text (.unencodable c e) := by
  have layer := layer_compile compiled
  refine ⟨layer.canon, layer.kept, layer.shallow, fun version e low => ?_⟩
  have hinges : Hinges e (Token.writtenAll tokens) (TextBlock.encode e ⟨version, tokens⟩) :=
    TextBlock.hinges_encode e low layer.canon layer.shallow
  refine ⟨hinges.exists_ok_iff, fun cause failed => ?_⟩
  rw [failed] at hinges
  exact hinges

/-- A script with names in lower case, attributes out of order, a bracket inside quotes, a number in
another spelling, and a comment between two runs. -/
def looseScript : String :=
  "; note\r\n<a name=\"\\\"ｱ>\" ID=+07>x\\n;<Br >\r\n;gone\n\\;¥</A\t>\n"

/-- The tokens of the script without its comments. -/
def looseTokens : List Token :=
  [.span ⟨"A", [("ID", "7"), ("NAME", "\"ｱ>")]⟩ [.text "x\n;", .lineBreak, .text ";¥"]]

/-- The script compiles to canonical tokens, and they are written. -/
theorem compile_writable_loose :
    compile false looseScript = .ok looseTokens ∧ Token.AllCanonical looseTokens ∧
      ∃ bytes, TextBlock.encode .cp932 ⟨104, looseTokens⟩ = .ok bytes := by
  have compiled : compile false looseScript = .ok looseTokens := by
    decide +kernel
  obtain ⟨canon, _, _, writes⟩ := compile_writable compiled
  refine ⟨compiled, canon, (writes 104 .cp932 (by decide)).1.mpr ?_⟩
  exact List.all_eq_true.mp (by decide)

end Script

end NovelChart
