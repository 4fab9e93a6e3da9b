import Mathlib.Data.List.Forall2
import NovelChart.Proofs.Compiled

/-!
# Comments leave no trace

A script can be compiled with its comments or without them, and the chart does not show which. The
two compilers read the same pieces but end their runs of text at different places: a comment that is
kept cuts a run in two, and one that is dropped does not. They still refuse the same scripts for the
same faults, and taking the comments out of what the first makes gives what the second makes, on
every layer. Comments are not written, and a run is written character by character wherever it is
cut, so both results have the same bytes or are refused for the same cause.

The proof runs the two builders side by side. Their layers may differ in comments, and in where the
runs around these are cut, but not otherwise.

## Main definitions

* `Alike`: two outcomes are the same failure, or successes that are related
* `Token.bare`: tokens without their comments, runs that meet being joined
* `Script.Builder.Bares`: one builder holds what another one does, without the comments

## Main results

* `Markup.encodeTokens_bare`: what is written does not depend on comments
* `Script.Builder.Bares.step`: the two builders stay side by side
* `Script.compile_comments`: keeping comments changes neither success nor what is written
-/

namespace NovelChart

/-! ### Outcomes side by side -/

section Outcomes

variable {ε α β γ δ : Type} {R : α → β → Prop} {S : γ → δ → Prop}

/-- Both outcomes are failures, and the same one, or both are successes with related results. -/
def Alike (R : α → β → Prop) : Except ε α → Except ε β → Prop
  | .ok x, .ok y => R x y
  | .error cause, .error cause' => cause = cause'
  | _, _ => False

theorem Alike.bind {m : Except ε α} {m' : Except ε β} {f : α → Except ε γ} {f' : β → Except ε δ}
    (first : Alike R m m') (second : ∀ x y, R x y → Alike S (f x) (f' y)) :
    Alike S (m >>= f) (m' >>= f') := by
  cases m with
  | ok x =>
    cases m' with
    | ok y => exact second x y first
    | error cause => exact first.elim
  | error cause =>
    cases m' with
    | ok y => exact first.elim
    | error cause' => exact first

/-- Steps that keep two states related keep them so in a whole run. -/
theorem Alike.foldlM {step : α → γ → Except ε α} {step' : β → γ → Except ε β} {inputs : List γ}
    (steps : ∀ input ∈ inputs, ∀ x y, R x y → Alike R (step x input) (step' y input)) {x : α}
    {y : β} (start : R x y) : Alike R (inputs.foldlM step x) (inputs.foldlM step' y) := by
  induction inputs generalizing x y with
  | nil => exact start
  | cons input inputs ih =>
    rw [List.foldlM_cons, List.foldlM_cons]
    refine (steps input List.mem_cons_self x y start).bind fun x' y' related => ?_
    exact ih (fun next later => steps next (List.mem_cons_of_mem input later)) related

/-- Outcomes that are related by a function are one outcome, mapped. -/
theorem alike_map_iff {f : α → β} {m : Except ε α} {m' : Except ε β} :
    Alike (fun x y => y = f x) m m' ↔ m' = m.map f := by
  cases m with
  | ok x => cases m' <;> simp [Alike, Except.map]
  | error cause => cases m' <;> simp [Alike, Except.map, eq_comm]

end Outcomes

/-! ### Tokens without comments -/

namespace Token

mutual

/-- What is left of a token without comments: nothing of a comment itself. -/
def uncomment : Token → List Token
  | comment _ => []
  | span tag content => [span tag (gather (uncommentAll content))]
  | t => [t]

/-- What is left of tokens without comments, runs of text not yet being joined. -/
def uncommentAll : List Token → List Token
  | [] => []
  | t :: ts => t.uncomment ++ uncommentAll ts

end

/-- Tokens without their comments; runs of text that meet are joined, on every layer. -/
def bare (ts : List Token) : List Token :=
  gather (uncommentAll ts)

theorem uncommentAll_append (ts us : List Token) :
    uncommentAll (ts ++ us) = uncommentAll ts ++ uncommentAll us := by
  induction ts with
  | nil => rfl
  | cons t ts ih => rw [List.cons_append, uncommentAll, ih, uncommentAll, List.append_assoc]

theorem uncommentAll_singleton (t : Token) : uncommentAll [t] = t.uncomment :=
  List.append_nil _

/-- Joining a run of text to what follows does not change what is gathered behind it. -/
theorem gather_join_append (t : Token) (ts us : List Token) :
    gather (t.join ts ++ us) = t.join (gather (ts ++ us)) := by
  cases t with
  | text run =>
    cases ts with
    | nil => rfl
    | cons u ts =>
      cases u with
      | text other => exact (Script.Builder.join_text run other _).symm
      | _ => rfl
  | _ => rfl

/-- What is gathered already may be gathered again with what follows. -/
theorem gather_gather_append (ts us : List Token) :
    gather (gather ts ++ us) = gather (ts ++ us) := by
  induction ts with
  | nil => rfl
  | cons t ts ih =>
    calc gather (t.join (gather ts) ++ us)
      _ = t.join (gather (gather ts ++ us)) := gather_join_append t (gather ts) us
      _ = t.join (gather (ts ++ us)) := by rw [ih]
      _ = gather (t :: ts ++ us) := rfl

theorem gather_append_congr {us us' : List Token} (same : gather us = gather us')
    (ts : List Token) : gather (ts ++ us) = gather (ts ++ us') := by
  simp only [gather, List.foldr_append] at same ⊢
  rw [same]

/-- A token behind others: what is left of it is gathered with what is left of them. -/
theorem bare_append (ts us : List Token) :
    bare (ts ++ us) = gather (bare ts ++ uncommentAll us) := by
  rw [bare, uncommentAll_append, bare, gather_gather_append]

end Token

/-! ### Comments are not written -/

namespace Markup

variable {e : Encoding}

mutual

theorem encodeTokens_uncomment (depth : Nat) : ∀ (t : Token) (ts : List Token),
    encodeTokens e depth (t.uncomment ++ ts) = encodeTokens e depth (t :: ts)
  | .text _, _ => rfl
  | .lineBreak, _ => rfl
  | .pageBreak, _ => rfl
  | .mark _, _ => rfl
  | .comment body, ts => by
    -- A comment adds no bytes and no token to the count.
    rw [Token.uncomment, List.nil_append, encodeTokens, encodeToken]
    cases encodeTokens e depth ts with
    | error cause => rfl
    | ok rest => simp [bind, Except.bind, pure, Except.pure]
  | .span tag content, ts => by
    have same : encodeToken e depth (.span tag (Token.gather (Token.uncommentAll content))) =
        encodeToken e depth (.span tag content) := by
      rw [encodeToken, encodeToken, encodeTokens_gather, encodeTokens_uncommentAll]
    rw [Token.uncomment, List.singleton_append, encodeTokens, same, encodeTokens]

theorem encodeTokens_uncommentAll (depth : Nat) : ∀ ts : List Token,
    encodeTokens e depth (Token.uncommentAll ts) = encodeTokens e depth ts
  | [] => rfl
  | t :: ts => by
    rw [Token.uncommentAll, encodeTokens_uncomment depth t,
      encodeTokens_cons_congr t (encodeTokens_uncommentAll depth ts)]

end

/-- What is written does not depend on comments, and neither does why it is refused. -/
theorem encodeTokens_bare (depth : Nat) (ts : List Token) :
    encodeTokens e depth (Token.bare ts) = encodeTokens e depth ts := by
  rw [Token.bare, encodeTokens_gather, encodeTokens_uncommentAll]

end Markup

theorem TextBlock.encode_bare (e : Encoding) (version : UInt16) (ts : List Token) :
    TextBlock.encode e ⟨version, Token.bare ts⟩ = TextBlock.encode e ⟨version, ts⟩ := by
  rw [TextBlock.encode, TextBlock.encode, Markup.encodeTokens_bare]

/-! ### Builders side by side -/

namespace Script

open Token (bare gather uncommentAll)

namespace Builder

variable {b b' : Builder} {t : Token}

/-- The tokens of the innermost layer, its open run included. -/
def layer (b : Builder) : List Token :=
  b.flush.tokens.reverse

theorem layer_push (b : Builder) (t : Token) : (b.push t).layer = b.layer ++ [t] := by
  have ended : (b.push t).run = [] := flush_run
  rw [layer, flush_tokens, ended, runToken, if_pos rfl, List.append_nil]
  exact List.reverse_cons

/-- A character goes on the run that is open, or begins one. -/
theorem gather_runToken_char (ts : List Token) (c : Char) (run : List Char) :
    gather (ts ++ runToken (c :: run)) =
      gather (ts ++ runToken run ++ [.text (String.singleton c)]) := by
  have filled : String.singleton c ≠ "" := by
    simp
  have longer : gather (runToken (c :: run)) =
      gather (runToken run ++ [.text (String.singleton c)]) := by
    simpa using gather_runToken run filled []
  rw [Token.gather_append_congr longer, List.append_assoc]

theorem uncommentAll_runToken (run : List Char) : uncommentAll (runToken run) = runToken run := by
  rw [runToken]
  split
  · rfl
  · rfl

/-- The second builder, which drops comments, holds what the first one does without the comments:
on the innermost layer, and on those around it. -/
structure Bares (b b' : Builder) : Prop where
  layer : b'.layer = bare b.layer
  stack : List.Forall₂ (fun frame frame' => frame'.tag = frame.tag ∧
    frame'.before.reverse = bare frame.before.reverse) b.stack b'.stack
  sound : b'.Sound false

theorem bares_new : Bares {} {} :=
  ⟨rfl, .nil, sound_new false⟩

/-- A layer without comments has no runs that could be joined. -/
theorem Sound.gather_layer (sound : b.Sound false) : gather b.layer = b.layer :=
  Token.gather_of_allCanonical sound.layer_flush.canon

theorem Bares.char (bares : Bares b b') (c : Char) :
    Bares { b with run := c :: b.run } { b' with run := c :: b'.run } := by
  have sound : Sound false { b' with run := c :: b'.run } :=
    ⟨bares.sound.layer, bares.sound.apart, bares.sound.frames⟩
  refine ⟨?_, bares.stack, sound⟩
  -- The first run may begin behind a comment and be shorter, so the runs do not correspond: only
  -- the gathered layers do.
  have before := bares.layer
  simp only [Builder.layer, flush_tokens] at before
  calc Builder.layer { b' with run := c :: b'.run }
    _ = gather (b'.tokens.reverse ++ runToken (c :: b'.run)) := by
      rw [← sound.gather_layer, Builder.layer, flush_tokens]
    _ = gather (bare (b.tokens.reverse ++ runToken b.run) ++ [.text (String.singleton c)]) := by
      rw [gather_runToken_char, before]
    _ = bare (b.tokens.reverse ++ runToken (c :: b.run)) := by
      rw [bare, bare, Token.gather_gather_append, Token.uncommentAll_append,
        Token.uncommentAll_append, uncommentAll_runToken, uncommentAll_runToken,
        gather_runToken_char]
    _ = bare (Builder.layer { b with run := c :: b.run }) := by rw [Builder.layer, flush_tokens]

theorem Bares.push (bares : Bares b b') (kept : t.uncomment = [t])
    (sound : (b'.push t).Sound false) : Bares (b.push t) (b'.push t) := by
  refine ⟨?_, ?_, sound⟩
  · calc (b'.push t).layer
      _ = gather (b'.push t).layer := sound.gather_layer.symm
      _ = gather (bare b.layer ++ [t]) := by rw [layer_push, bares.layer]
      _ = bare (b.push t).layer := by
        rw [layer_push, Token.bare_append, Token.uncommentAll_singleton, kept]
  · simpa only [Builder.push, flush_stack] using bares.stack

/-- A comment that only the first builder keeps. -/
theorem Bares.comment (bares : Bares b b') (body : String) : Bares (b.push (.comment body)) b' := by
  refine ⟨?_, ?_, bares.sound⟩
  · rw [layer_push, bare, Token.uncommentAll_append, Token.uncommentAll_singleton,
      Token.uncomment, List.append_nil]
    exact bares.layer
  · simpa only [Builder.push, flush_stack] using bares.stack

theorem Bares.enter (bares : Bares b b') {tag : Tag} (sound : (b'.enter tag).Sound false) :
    Bares (b.enter tag) (b'.enter tag) := by
  refine ⟨rfl, ?_, sound⟩
  simp only [Builder.enter, flush_stack]
  exact .cons ⟨rfl, bares.layer⟩ bares.stack

/-- A span that closes encloses the layer, and goes behind the tokens that stand before it. -/
theorem Bares.close {frame frame' : Frame} {stack stack' : List Frame} (bares : Bares b b')
    (top : b.stack = frame :: stack) (top' : b'.stack = frame' :: stack') :
    Bares ⟨stack, .span frame.tag b.layer :: frame.before, []⟩
      ⟨stack', .span frame'.tag b'.layer :: frame'.before, []⟩ := by
  have frames := bares.stack
  rw [top, top'] at frames
  obtain ⟨⟨tag, before⟩, outer⟩ := List.forall₂_cons.mp frames
  have sound : Sound false ⟨stack', .span frame'.tag b'.layer :: frame'.before, []⟩ :=
    bares.sound.close top'
  refine ⟨?_, outer, sound⟩
  calc Builder.layer ⟨stack', .span frame'.tag b'.layer :: frame'.before, []⟩
    _ = gather (frame'.before.reverse ++ [.span frame'.tag b'.layer]) := by
      rw [← List.reverse_cons]
      exact sound.gather_layer.symm
    _ = gather (bare frame.before.reverse ++ [.span frame.tag (bare b.layer)]) := by
      rw [before, tag, bares.layer]
    _ = bare (frame.before.reverse ++ [.span frame.tag b.layer]) := by
      rw [Token.bare_append, Token.uncommentAll_singleton]
      rfl
    _ = bare (Builder.layer ⟨stack, .span frame.tag b.layer :: frame.before, []⟩) := by
      rw [← List.reverse_cons]
      rfl

/-- One piece is refused by both builders for the same fault, or taken in by both, and they stay
side by side. -/
theorem Bares.step {p : Piece} (bares : Bares b b') (genuine : p.Genuine) :
    Alike Bares (b.step true p) (b'.step false p) := by
  have next : ∀ {after}, b'.step false p = .ok after → after.Sound false :=
    bares.sound.step genuine
  -- Faults speak of depths and of open tags, which are the same on both stacks.
  have depth : b'.stack.length = b.stack.length := bares.stack.length_eq.symm
  cases p with
  | char c => exact bares.char c
  | comment body => exact bares.comment body
  | markup line m =>
    cases m with
    | token t =>
      -- A comment is a piece of its own; no markup makes one.
      have kept : t.uncomment = [t] := by
        cases genuine <;> rfl
      exact bares.push kept (next rfl)
    | opening spec attrs =>
      rw [Builder.step, Builder.step, depth]
      split
      · rfl
      · next low =>
        refine bares.enter (next ?_)
        rw [Builder.step, depth, if_neg low]
    | closing name =>
      have frames := bares.stack
      cases top : b.stack with
      | nil =>
        rw [top, List.forall₂_nil_left_iff] at frames
        rw [Builder.step, Builder.step, top, frames]
        rfl
      | cons frame stack =>
        rw [top] at frames
        obtain ⟨frame', stack', ⟨tag, _⟩, _, top'⟩ := List.forall₂_cons_left_iff.mp frames
        rw [Builder.step, Builder.step, top, top']
        dsimp only
        rw [tag]
        split
        · have closed := bares.close top top'
          rwa [tag] at closed
        · rfl

theorem Bares.finish (bares : Bares b b') (ending : Ending) :
    Alike (fun ts ts' => ts' = bare ts) (b.finish ending) (b'.finish ending) := by
  cases ending with
  | fault cause => rfl
  | finish line =>
    have frames := bares.stack
    cases top : b.stack with
    | nil =>
      rw [top, List.forall₂_nil_left_iff] at frames
      rw [Builder.finish, Builder.finish, top, frames]
      exact bares.layer
    | cons frame stack =>
      rw [top] at frames
      obtain ⟨frame', stack', ⟨tag, _⟩, _, top'⟩ := List.forall₂_cons_left_iff.mp frames
      rw [Builder.finish, Builder.finish, top, top']
      dsimp only
      rw [tag]
      rfl

end Builder

/-- Compiling without comments is compiling with them and taking them out. -/
theorem compile_bare (source : String) :
    compile false source = (compile true source).map bare := by
  refine alike_map_iff.mp ?_
  rw [compile, compile, build, build]
  have steps : Alike Builder.Bares ((scan source).pieces.foldlM (Builder.step true) {})
      ((scan source).pieces.foldlM (Builder.step false) {}) :=
    Alike.foldlM (fun p member _ _ bares => bares.step (genuine_scan source p member))
      Builder.bares_new
  exact steps.bind fun _ _ bares => bares.finish (scan source).ending

/-- Keeping comments changes neither success nor what is written: a script is compiled without them
exactly when it is with them, and refused for the same fault otherwise; the one result is the other
without its comments, runs that meet being joined on every layer; and blocks of the two results, of
any version and in any encoding, have the same bytes or are refused for the same cause. -/
theorem compile_comments (source : String) (version : UInt16) (e : Encoding) :
    compile false source = (compile true source).map bare ∧
      (compile false source).map (fun tokens => TextBlock.encode e ⟨version, tokens⟩) =
        (compile true source).map fun tokens => TextBlock.encode e ⟨version, tokens⟩ := by
  refine ⟨compile_bare source, ?_⟩
  rw [compile_bare]
  cases compile true source with
  | error cause => rfl
  | ok tokens => exact congrArg Except.ok (TextBlock.encode_bare e version tokens)

/-- Comments inside and around a span, each of them between two runs. -/
example : compile true "x\n;a\ny<A>1\n;b\n2</A>" = .ok [.text "x", .comment "a", .text "y",
      .span ⟨"A", []⟩ [.text "1", .comment "b", .text "2"]] ∧
    compile false "x\n;a\ny<A>1\n;b\n2</A>" =
      .ok [.text "xy", .span ⟨"A", []⟩ [.text "12"]] := by
  decide +kernel

end Script

end NovelChart
