import NovelChart.Proofs.Block
import NovelChart.Proofs.Scan
import NovelChart.Script.Compile

/-!
# Printed scripts are compiled back

Compiling a printed script gives the tokens back in settled form: tags in canonical spelling, runs
of text joined, empty runs gone, comments without line ends or dropped. Settling does not change
what is written, so every block that can be written at all comes out of its script with the same
bytes; and canonical tokens are settled already.

The proof follows the printed text from left to right. A piece of it *carries* the builder from one
state to another when scanning it has this effect, whatever stands behind it.

## Main definitions

* `Token.settle`, `Token.settleAll`: what compiling makes of printed tokens
* `Script.Builder.absorb`: a builder takes in a whole token
* `Script.Carries`: a stretch of text moves a builder from one state to another

## Main results

* `Script.compile_print`: a printed script is compiled to the settled tokens
* `Markup.encodeTokens_settleAll`: settled tokens are written with the same bytes
* `TextBlock.recompile_exact`: a block survives printing and compiling
-/

namespace NovelChart

/-! ### Settled tokens -/

/-- The canonical spelling of a tag; a tag that has none stays as it is. -/
def Tag.settle (tag : Tag) : Tag :=
  match TagSpec.ofName? tag.name with
  | none => tag
  | some spec => ⟨spec.name, (spec.normalize tag.attrs).toOption.getD tag.attrs⟩

theorem Tag.settle_eq {tag : Tag} {spec : TagSpec} {attrs : List (String × String)}
    (found : TagSpec.ofName? tag.name = some spec) (normal : spec.normalize tag.attrs = .ok attrs) :
    tag.settle = ⟨spec.name, attrs⟩ := by
  simp [Tag.settle, found, normal, Except.toOption]

theorem Tag.IsCanonical.settle_eq {tag : Tag} {spec : TagSpec} (canon : tag.IsCanonical spec) :
    tag.settle = tag := by
  obtain ⟨found, normal⟩ := canon.normalize
  rw [Tag.settle_eq found normal, ← canon.2.1]

namespace Token

mutual

/-- What compiling makes of a printed token, neighbouring runs of text not yet being joined. -/
def settle (keep : Bool) : Token → List Token
  | text run => if run = "" then [] else [text run]
  | lineBreak => [lineBreak]
  | pageBreak => [pageBreak]
  | comment body => if keep then [comment (Script.cleanComment body)] else []
  | mark tag => [mark tag.settle]
  | span tag content => [span tag.settle (gather (settleAll keep content))]

/-- What compiling makes of printed tokens. -/
def settleAll (keep : Bool) : List Token → List Token
  | [] => []
  | t :: ts => t.settle keep ++ settleAll keep ts

end

/-- Settling leaves no empty run of text. -/
theorem text_mem_settle {keep : Bool} {t : Token} {run : String}
    (member : text run ∈ t.settle keep) : run ≠ "" := by
  cases t with
  | text other =>
    rw [settle] at member
    split at member
    · cases member
    · next filled =>
      obtain rfl := Token.text.inj (List.mem_singleton.mp member)
      exact filled
  | comment body =>
    rw [settle] at member
    split at member
    · cases List.mem_singleton.mp member
    · cases member
  | _ => cases List.mem_singleton.mp member

theorem text_mem_settleAll {keep : Bool} {ts : List Token} {run : String}
    (member : text run ∈ settleAll keep ts) : run ≠ "" := by
  induction ts with
  | nil => cases member
  | cons t ts ih =>
    rcases List.mem_append.mp member with member | member
    · exact text_mem_settle member
    · exact ih member

/-- Canonical tokens have no runs to be joined. -/
theorem gather_of_allCanonical {ts : List Token} (canon : AllCanonical ts) : gather ts = ts := by
  induction ts with
  | nil => rfl
  | cons t ts ih =>
    obtain ⟨_, apart, rest⟩ := canon
    calc gather (t :: ts)
      _ = t.join (gather ts) := rfl
      _ = t.join ts := by rw [ih rest]
      _ = t :: ts := join_of_apart apart

mutual

/-- A canonical token is settled, if no comment of it is dropped. -/
theorem settle_of_isCanonical (keep : Bool) : ∀ t : Token, t.IsCanonical →
    (keep = true ∨ t.hasComment = false) → t.settle keep = [t]
  | text run, filled, _ => by rw [settle, if_neg (by exact filled)]
  | lineBreak, _, _ => rfl
  | pageBreak, _, _ => rfl
  | comment body, plain, kept => by
    have clean : Script.cleanComment body = body := by
      rw [Script.cleanComment, List.filter_eq_self.mpr, String.ofList_toList]
      intro c member
      simpa using plain c member
    rcases kept with rfl | absurd
    · rw [settle, if_pos rfl, clean]
    · cases absurd
  | mark tag, canon, _ => by
    obtain ⟨spec, canon, _⟩ := canon
    rw [settle, canon.settle_eq]
  | span tag content, canon, kept => by
    obtain ⟨⟨spec, canon, _⟩, inner⟩ := canon
    rw [settle, canon.settle_eq, settleAll_of_allCanonical keep content inner kept,
      gather_of_allCanonical inner]

/-- Canonical tokens are settled, if no comment of them is dropped. -/
theorem settleAll_of_allCanonical (keep : Bool) : ∀ ts : List Token, AllCanonical ts →
    (keep = true ∨ anyComment ts = false) → settleAll keep ts = ts
  | [], _, _ => rfl
  | t :: ts, canon, kept => by
    have first : keep = true ∨ t.hasComment = false :=
      kept.imp_right fun none => (Bool.or_eq_false_iff.mp none).1
    have rest : keep = true ∨ anyComment ts = false :=
      kept.imp_right fun none => (Bool.or_eq_false_iff.mp none).2
    rw [settleAll, settle_of_isCanonical keep t canon.1 first,
      settleAll_of_allCanonical keep ts canon.2.2 rest, List.singleton_append]

end

end Token

/-! ### Settled tokens are written alike -/

namespace Markup

variable {e : Encoding} {depth : Nat}

theorem encodeHead_settle {tag : Tag} {paired : Bool} {bytes : List UInt8}
    (written : encodeHead e tag paired = .ok bytes) :
    encodeHead e tag.settle paired = .ok bytes := by
  obtain ⟨spec, attrs, found, _, normal, same⟩ := encodeHead_normalize written
  rwa [Tag.settle_eq found normal]

theorem encodeTokens_append_eq_ok {ts us : List Token} {n m : Nat} {bytes more : List UInt8}
    (first : encodeTokens e depth ts = .ok (n, bytes))
    (second : encodeTokens e depth us = .ok (m, more)) :
    encodeTokens e depth (ts ++ us) = .ok (n + m, bytes ++ more) := by
  induction ts generalizing n bytes with
  | nil =>
    cases first
    rwa [List.nil_append, Nat.zero_add]
  | cons t ts ih =>
    obtain ⟨k, front, l, back, written, rest, rfl, rfl⟩ := encodeTokens_cons_eq_ok.mp first
    rw [List.cons_append, encodeTokens_cons_eq_ok]
    exact ⟨k, front, l + m, back ++ more, written, ih rest, Nat.add_assoc _ _ _,
      List.append_assoc _ _ _⟩

theorem encodeTokens_singleton {t : Token} {n : Nat} {bytes : List UInt8}
    (written : encodeToken e depth t = .ok (n, bytes)) :
    encodeTokens e depth [t] = .ok (n, bytes) := by
  rw [encodeTokens_cons_eq_ok]
  exact ⟨n, bytes, 0, [], written, rfl, rfl, (List.append_nil _).symm⟩

mutual

/-- A settled token is written with the same bytes. -/
theorem encodeTokens_settle (keep : Bool) (depth : Nat) :
    ∀ (t : Token) {n : Nat} {bytes : List UInt8}, encodeToken e depth t = .ok (n, bytes) →
      encodeTokens e depth (t.settle keep) = .ok (n, bytes)
  | .text run, n, bytes, written => by
    rw [Token.settle]
    split
    · next empty =>
      -- An empty run is written as nothing.
      subst empty
      exact written
    · exact encodeTokens_singleton written
  | .lineBreak, _, _, written => encodeTokens_singleton written
  | .pageBreak, _, _, written => encodeTokens_singleton written
  | .comment body, n, bytes, written => by
    -- Comments are written as nothing, kept or not.
    cases written
    rw [Token.settle]
    split
    · exact encodeTokens_singleton rfl
    · rfl
  | .mark tag, n, bytes, written => by
    refine encodeTokens_singleton ?_
    simp only [encodeToken, bind_eq_ok, pure_eq_ok, Prod.mk.injEq] at written ⊢
    obtain ⟨head, written, rfl, rfl⟩ := written
    exact ⟨head, encodeHead_settle written, rfl, rfl⟩
  | .span tag content, n, bytes, written => by
    refine encodeTokens_singleton ?_
    simp only [encodeToken, bind_eq_ok, pure_eq_ok, refuse_eq_ok, Prod.exists, Prod.mk.injEq]
      at written ⊢
    obtain ⟨head, written, shallow, count, body, inner, rfl, rfl⟩ := written
    refine ⟨head, encodeHead_settle written, shallow, count, body, ?_, rfl, rfl⟩
    rw [encodeTokens_gather]
    exact encodeTokens_settleAll keep (depth + 1) content inner

/-- Settled tokens are written with the same bytes. -/
theorem encodeTokens_settleAll (keep : Bool) (depth : Nat) :
    ∀ (ts : List Token) {n : Nat} {bytes : List UInt8}, encodeTokens e depth ts = .ok (n, bytes) →
      encodeTokens e depth (Token.settleAll keep ts) = .ok (n, bytes)
  | [], _, _, written => written
  | t :: ts, n, bytes, written => by
    obtain ⟨n, first, m, more, written₁, written₂, rfl, rfl⟩ := encodeTokens_cons_eq_ok.mp written
    exact encodeTokens_append_eq_ok (encodeTokens_settle keep depth t written₁)
      (encodeTokens_settleAll keep depth ts written₂)

end

end Markup

/-! ### Builders -/

namespace Script

namespace Builder

variable {b : Builder} {t : Token}

@[simp] theorem flush_stack : b.flush.stack = b.stack := by
  rw [flush]
  split <;> rfl

@[simp] theorem flush_run : b.flush.run = [] := by
  rw [flush]
  split
  · next empty => exact List.isEmpty_iff.mp empty
  · rfl

/-- Takes in a whole token: a run of text goes on the current run, any other token ends it. -/
def absorb (b : Builder) : Token → Builder
  | .text run => { b with run := run.toList.reverse ++ b.run }
  | t => b.push t

@[simp] theorem absorb_stack : (b.absorb t).stack = b.stack := by
  cases t with
  | text run => rfl
  | _ => exact flush_stack

@[simp] theorem foldl_absorb_stack (units : List Token) :
    (units.foldl absorb b).stack = b.stack := by
  induction units generalizing b with
  | nil => rfl
  | cons t units ih => rw [List.foldl_cons, ih, absorb_stack]

/-- The characters of a run, held last first, as a token. -/
def runToken (run : List Char) : List Token :=
  if run = [] then [] else [.text (String.ofList run.reverse)]

theorem flush_tokens : b.flush.tokens.reverse = b.tokens.reverse ++ runToken b.run := by
  rw [flush, runToken]
  cases b.run with
  | nil => simp
  | cons c cs => simp

theorem join_text (run other : String) (ts : List Token) :
    (Token.text run).join ((Token.text other).join ts) = (Token.text (run ++ other)).join ts := by
  cases ts with
  | nil => rfl
  | cons t ts =>
    cases t with
    | text more => simp only [Token.join, String.append_assoc]
    | _ => rfl

/-- A run that goes on is gathered with what it began with. -/
theorem gather_runToken (cs : List Char) {run : String} (filled : run ≠ "") (units : List Token) :
    Token.gather (runToken (run.toList.reverse ++ cs) ++ units) =
      Token.gather (runToken cs ++ .text run :: units) := by
  have more : run.toList.reverse ++ cs ≠ [] := by
    intro empty
    exact filled (by simpa using (List.append_eq_nil_iff.mp empty).1)
  have whole : String.ofList (run.toList.reverse ++ cs).reverse =
      String.ofList cs.reverse ++ run := by
    rw [List.reverse_append, List.reverse_reverse, String.ofList_append, String.ofList_toList]
  rw [runToken, if_neg more, whole, runToken]
  -- Without a run before it the text stands alone, otherwise the two are joined.
  by_cases empty : cs = []
  · subst empty
    simp
  · rw [if_neg empty]
    exact (join_text _ _ _).symm

/-- A token that is no run of text ends the run before it. -/
theorem gather_runToken_cons (cs : List Char) (plain : t.isText = false) (units : List Token) :
    Token.gather (runToken cs ++ t :: units) = runToken cs ++ t :: Token.gather units := by
  have first : Token.gather (t :: units) = t :: Token.gather units :=
    Token.join_of_apart fun isText => by cases plain.symm.trans isText
  rw [runToken]
  split
  · exact first
  · calc Token.gather (.text (String.ofList cs.reverse) :: t :: units)
      _ = (Token.text (String.ofList cs.reverse)).join (t :: Token.gather units) := by
        rw [← first]
        rfl
      _ = .text (String.ofList cs.reverse) :: t :: Token.gather units := by
        refine Token.join_of_apart fun _ u head => ?_
        obtain rfl : t = u := Option.some.inj head
        exact plain

theorem flush_push (plain : t.isText = false) (units : List Token) :
    (b.push t).tokens.reverse ++ Token.gather (runToken (b.push t).run ++ units) =
      b.tokens.reverse ++ Token.gather (runToken b.run ++ t :: units) := by
  have ended : (b.push t).run = [] := flush_run
  have tokens : (b.push t).tokens.reverse = b.tokens.reverse ++ runToken b.run ++ [t] := by
    rw [← flush_tokens]
    exact List.reverse_cons
  rw [ended, tokens, gather_runToken_cons b.run plain]
  simp [runToken]

/-- The level that a builder completes holds what it was given, gathered. -/
theorem flush_foldl_absorb {units : List Token} (filled : ∀ run, .text run ∈ units → run ≠ "") :
    (units.foldl absorb b).flush.tokens.reverse =
      b.tokens.reverse ++ Token.gather (runToken b.run ++ units) := by
  induction units generalizing b with
  | nil =>
    rw [List.foldl_nil, List.append_nil, flush_tokens, runToken]
    split <;> rfl
  | cons t units ih =>
    rw [List.foldl_cons, ih fun run member => filled run (List.mem_cons_of_mem _ member)]
    -- What the builder holds, its open run included, stands in front of what is still to come.
    cases t with
    | text run =>
      have first := filled run List.mem_cons_self
      exact congrArg (b.tokens.reverse ++ ·) (gather_runToken b.run first units)
    | _ => exact flush_push rfl units

/-- A closing tag completes the level that its opening tag began. -/
theorem step_close {keep : Bool} {units : List Token} {tag : Tag} {name : String}
    (filled : ∀ run, .text run ∈ units → run ≠ "") (same : Text.sameLetters tag.name name = true)
    (line : Nat) :
    (units.foldl absorb (b.enter tag)).step keep (.markup line (.closing name)) =
      .ok (b.push (.span tag (Token.gather units))) := by
  -- The tag on top of the stack is the one that was entered, as levels in between are complete.
  have stack : (units.foldl absorb (b.enter tag)).stack = ⟨tag, b.flush.tokens⟩ :: b.stack := by
    rw [foldl_absorb_stack, enter, flush_stack]
  have level : (units.foldl absorb (b.enter tag)).flush.tokens.reverse = Token.gather units :=
    flush_foldl_absorb filled
  simp only [step, stack, same, if_true, level, push, flush_stack, flush_run]

end Builder

/-! ### Runs over scanned pieces -/

/-- Building from a state on. -/
def run (keep : Bool) (b : Builder) (s : Scanned) : Except ScriptError (List Token) := do
  let b ← s.pieces.foldlM (Builder.step keep) b
  b.finish s.ending

variable {keep fresh fresh' : Bool} {b b' : Builder}

theorem run_cons {p : Piece} (stepped : b.step keep p = .ok b') (s : Scanned) :
    run keep b (s.cons p) = run keep b' s := by
  simp only [run, Scanned.cons, List.foldlM_cons, stepped]
  rfl

/-- Scanning the text moves the builder from one state to another, whatever stands behind it. -/
def Carries (keep fresh : Bool) (text : List Char) (fresh' : Bool) (b b' : Builder) : Prop :=
  ∀ line rest, ∃ line', run keep b (scanFrom (.text fresh) line (text ++ rest)) =
    run keep b' (scanFrom (.text fresh') line' rest)

theorem carries_nil : Carries keep fresh [] fresh b b :=
  fun line _ => ⟨line, rfl⟩

theorem Carries.append {text more : List Char} {fresh'' : Bool} {b'' : Builder}
    (first : Carries keep fresh text fresh' b b')
    (second : Carries keep fresh' more fresh'' b' b'') :
    Carries keep fresh (text ++ more) fresh'' b b'' := by
  intro line rest
  obtain ⟨line₁, eq₁⟩ := first line (more ++ rest)
  obtain ⟨line₂, eq₂⟩ := second line₁ rest
  exact ⟨line₂, by rw [List.append_assoc, eq₁, eq₂]⟩

/-- Protected characters are added to the current run. -/
theorem carries_run (cs : List Char) :
    Carries keep fresh (cs.flatMap escapeChar) (fresh && cs.isEmpty) b
      { b with run := cs.reverse ++ b.run } := by
  induction cs generalizing fresh b with
  | nil =>
    rw [List.isEmpty_nil, Bool.and_true]
    exact carries_nil
  | cons c cs ih =>
    -- Behind a character the scanner is no longer at the start of a line.
    intro line rest
    obtain ⟨line', eq⟩ := @ih false { b with run := c :: b.run } line rest
    refine ⟨line', ?_⟩
    rw [List.flatMap_cons, List.append_assoc, scan_escapeChar, run_cons rfl, eq]
    simp

/-- Markup between angle brackets takes one step. -/
theorem carries_markup {body : List Char} {m : Markup} (skips : Skips body)
    (parsed : Markup.parse body = .ok m)
    (stepped : ∀ line, b.step keep (.markup line m) = .ok b') :
    Carries keep fresh ('<' :: (body ++ ['>'])) false b b' := by
  intro line rest
  refine ⟨line + body.count '\n', ?_⟩
  rw [List.cons_append, List.append_assoc, List.singleton_append, scan_markup skips parsed,
    run_cons (stepped line)]

theorem carries_comment (body : String) :
    Carries keep fresh (printComment fresh body) true b
      ((Token.settle keep (.comment body)).foldl Builder.absorb b) := by
  intro line rest
  obtain ⟨line', eq⟩ := scan_printComment fresh body line rest
  refine ⟨line', ?_⟩
  have stepped : b.step keep (.comment (cleanComment body)) =
      .ok ((Token.settle keep (.comment body)).foldl Builder.absorb b) := by
    cases keep <;> rfl
  rw [eq, run_cons stepped]

/-- A line end leaves the builder as it is. -/
theorem carries_newline : Carries keep fresh ['\n'] true b b :=
  fun line rest => ⟨line + 1, by simp [scanFrom]⟩

/-! ### Printed tokens -/

theorem skips_printInside {tag : Tag} {spec : TagSpec} {attrs : List (String × String)}
    (found : TagSpec.ofName? tag.name = some spec) (normal : spec.normalize tag.attrs = .ok attrs) :
    Skips (Markup.printInside tag) := by
  have member := TagSpec.mem_table_of_ofName? found
  rw [Markup.printInside_eq, Markup.upper_of_ofName? found]
  refine skips_writeInside (Markup.isWord_of_isName (isName_table spec member).1).2 ?_
  intro attr listed
  obtain ⟨given, member', rfl⟩ := List.mem_map.mp listed
  exact (Markup.isWord_of_isName (Markup.isName_of_normalize member normal given member')).2

/-- A printed tag takes the step of its canonical form. -/
theorem carries_tag {tag : Tag} {spec : TagSpec} {attrs : List (String × String)}
    (found : TagSpec.ofName? tag.name = some spec) (normal : spec.normalize tag.attrs = .ok attrs)
    (stepped : ∀ line, b.step keep (.markup line (if spec.paired then .opening spec attrs
      else .token (.mark ⟨spec.name, attrs⟩))) = .ok b') :
    Carries keep fresh (printTag tag) false b b' := by
  have inside : printTag tag = '<' :: (Markup.printInside tag ++ ['>']) := by
    simp [printTag, Markup.printInside]
  rw [inside]
  exact carries_markup (skips_printInside found normal) (Markup.parse_printTag found normal) stepped

/-- A printed closing tag takes the step of its name. -/
theorem carries_close {tag : Tag} {spec : TagSpec}
    (found : TagSpec.ofName? tag.name = some spec)
    (stepped : ∀ line, b.step keep (.markup line (.closing spec.name)) = .ok b') :
    Carries keep fresh (printClose tag) false b b' := by
  have member := TagSpec.mem_table_of_ofName? found
  have name := Markup.upper_of_ofName? found
  have letters := (isName_table spec member).1
  have slash : Skips ['/'] := skips_of_plain (by simp)
  have parsed := Markup.parse_printClose (name ▸ letters : IsName (Text.upper tag.name).toList)
  rw [name] at parsed
  have inside : printClose tag = '<' :: (('/' :: spec.name.toList) ++ ['>']) := by
    simp [printClose, name]
  rw [inside]
  have skips := slash.append (skips_word (Markup.isWord_of_isName letters).2)
  exact carries_markup skips parsed stepped

theorem carries_break {name : String} {t : Token} (letters : IsName name.toList)
    (upper : Text.upper name = name) (spells : Markup.ofTag name [] = .ok (.token t))
    (more : Bool) :
    Carries keep fresh (printBreak name.toList more) more b (b.push t) := by
  have parsed : Markup.parse name.toList = .ok (.token t) := by
    have read := @Markup.parse_printInside ⟨name, []⟩ (upper.symm ▸ letters) (by simp)
    simpa [Markup.printInside, upper, spells] using read
  have tag : Carries keep fresh ('<' :: (name.toList ++ ['>'])) false b (b.push t) :=
    carries_markup (skips_word (Markup.isWord_of_isName letters).2) parsed fun _ => rfl
  cases more with
  | true =>
    have whole := tag.append carries_newline
    simpa [printBreak] using whole
  | false => simpa [printBreak] using tag

theorem freshAfter_append (fresh : Bool) (text : List Char) (c : Char) :
    freshAfter fresh (text ++ [c]) = (c == '\n') := by
  simp [freshAfter]

theorem freshAfter_run (fresh : Bool) (cs : List Char) :
    freshAfter fresh (cs.flatMap escapeChar) = (fresh && cs.isEmpty) := by
  -- Only the last character counts, and a protected one is no line end.
  rcases List.eq_nil_or_concat cs with rfl | ⟨front, c, rfl⟩
  · simp [freshAfter]
  · obtain ⟨d, last, newline⟩ := getLast?_escapeChar c
    have ends : ((front ++ [c]).flatMap escapeChar).getLast? = some d := by
      simp [List.flatMap_append, List.getLast?_append, last]
    have filled : (front ++ [c]).isEmpty = false := by cases front <;> rfl
    rw [List.concat_eq_append, freshAfter, ends, filled, Bool.and_false]
    exact beq_false_of_ne newline

theorem freshAfter_break (fresh : Bool) (name : List Char) (more : Bool) :
    freshAfter fresh (printBreak name more) = more := by
  cases more with
  | true =>
    have shape : printBreak name true = '<' :: name ++ ['>'] ++ ['\n'] := by simp [printBreak]
    rw [shape, freshAfter_append]
    rfl
  | false => exact freshAfter_append fresh ('<' :: name) '>'

theorem freshAfter_close (fresh : Bool) (text : List Char) (tag : Tag) :
    freshAfter fresh (text ++ printClose tag) = false := by
  rw [printClose, ← List.append_assoc, freshAfter_append]
  rfl

variable {e : Encoding}

mutual

/-- Scanning a printed token makes the builder absorb its settled form. -/
theorem carries_token (keep more : Bool) : ∀ (t : Token) {n depth : Nat} {bytes : List UInt8}
    (fresh : Bool) (b : Builder), b.stack.length = depth →
    Markup.encodeToken e depth t = .ok (n, bytes) →
    Carries keep fresh (printToken fresh more t) (freshAfter fresh (printToken fresh more t)) b
      ((t.settle keep).foldl Builder.absorb b)
  | .text run, _, _, _, fresh, b, _, _ => by
    have absorbed : (Token.settle keep (.text run)).foldl Builder.absorb b =
        { b with run := run.toList.reverse ++ b.run } := by
      rw [Token.settle]
      split
      · next empty => rw [empty]; rfl
      · rfl
    rw [absorbed, printToken, freshAfter_run]
    exact carries_run run.toList
  | .lineBreak, _, _, _, fresh, b, _, _ => by
    rw [printToken, freshAfter_break]
    have letters : IsName "BR".toList := by simp [IsName]
    exact carries_break letters (by decide) rfl more
  | .pageBreak, _, _, _, fresh, b, _, _ => by
    rw [printToken, freshAfter_break]
    have letters : IsName "PG".toList := by simp [IsName]
    exact carries_break letters (by decide) rfl more
  | .comment body, _, _, _, fresh, b, _, _ => by
    have ends : freshAfter fresh (printToken fresh more (.comment body)) = true := by
      rw [printToken, printComment, freshAfter_append]
      rfl
    rw [ends]
    exact carries_comment body
  | .mark tag, _, _, _, fresh, b, _, written => by
    simp only [Markup.encodeToken, bind_eq_ok, pure_eq_ok, Prod.mk.injEq] at written
    obtain ⟨_, written, _, _⟩ := written
    -- A tag that can be written has a canonical form, and that is what the script spells.
    obtain ⟨spec, attrs, found, single, normal, _⟩ := Markup.encodeHead_normalize written
    have ends : freshAfter fresh (printToken fresh more (.mark tag)) = false := by
      rw [printToken, printTag, freshAfter_append]
      rfl
    rw [ends, Token.settle, Tag.settle_eq found normal]
    refine carries_tag found normal fun line => ?_
    rw [single]
    rfl
  | .span tag content, _, depth, _, fresh, b, level, written => by
    simp only [Markup.encodeToken, bind_eq_ok, pure_eq_ok, refuse_eq_ok, Prod.exists,
      Prod.mk.injEq] at written
    obtain ⟨_, written, shallow, _, _, inner, _, _⟩ := written
    obtain ⟨spec, attrs, found, paired, normal, _⟩ := Markup.encodeHead_normalize written
    -- The content is built on a level of its own, which the closing tag completes.
    have opened : Carries keep fresh (printTag tag) false b (b.enter ⟨spec.name, attrs⟩) := by
      refine carries_tag found normal fun line => ?_
      rw [paired]
      simp [Builder.step, level, shallow]
    obtain ⟨fresh', content'⟩ := carries_tokens keep content false (b.enter ⟨spec.name, attrs⟩)
      (by simp [Builder.enter, level]) inner
    have closed : Carries keep fresh' (printClose tag) false
        ((Token.settleAll keep content).foldl Builder.absorb (b.enter ⟨spec.name, attrs⟩))
        (b.push (.span ⟨spec.name, attrs⟩ (Token.gather (Token.settleAll keep content)))) := by
      refine carries_close found fun line => ?_
      exact Builder.step_close (fun _ => Token.text_mem_settleAll) (Text.sameLetters_self _) line
    rw [printToken, freshAfter_close, Token.settle, Tag.settle_eq found normal]
    exact (opened.append content').append closed

/-- Scanning printed tokens makes the builder absorb their settled form. -/
theorem carries_tokens (keep : Bool) : ∀ (ts : List Token) {n depth : Nat} {bytes : List UInt8}
    (fresh : Bool) (b : Builder), b.stack.length = depth →
    Markup.encodeTokens e depth ts = .ok (n, bytes) →
    ∃ fresh', Carries keep fresh (printTokens fresh ts) fresh' b
      ((Token.settleAll keep ts).foldl Builder.absorb b)
  | [], _, _, _, fresh, b, _, _ => ⟨fresh, carries_nil⟩
  | t :: ts, _, _, _, fresh, b, level, written => by
    obtain ⟨_, _, _, _, written₁, written₂, _, _⟩ := Markup.encodeTokens_cons_eq_ok.mp written
    have first := carries_token keep (!ts.isEmpty) t fresh b level written₁
    obtain ⟨fresh', rest⟩ := carries_tokens keep ts
      (freshAfter fresh (printToken fresh (!ts.isEmpty) t))
      ((t.settle keep).foldl Builder.absorb b) (by rwa [Builder.foldl_absorb_stack]) written₂
    refine ⟨fresh', ?_⟩
    rw [Token.settleAll, List.foldl_append]
    exact first.append rest

end

/-- A printed script is compiled to the settled tokens. -/
theorem compile_print {ts : List Token} {n : Nat} {bytes : List UInt8}
    (written : Markup.encodeTokens e 0 ts = .ok (n, bytes)) (keep : Bool) :
    compile keep (print false ts) = .ok (Token.gather (Token.settleAll keep ts)) := by
  obtain ⟨fresh, carried⟩ := carries_tokens keep ts true {} rfl written
  obtain ⟨line, eq⟩ := carried 1 []
  have level : ((Token.settleAll keep ts).foldl Builder.absorb {}).flush.tokens.reverse =
      Token.gather (Token.settleAll keep ts) :=
    Builder.flush_foldl_absorb fun _ => Token.text_mem_settleAll
  have stack : ((Token.settleAll keep ts).foldl Builder.absorb {}).stack = [] :=
    Builder.foldl_absorb_stack _
  -- Nothing stands behind the script, so the scan ends where the last token was carried to.
  calc compile keep (print false ts)
    _ = run keep {} (scanFrom (.text true) 1 (printTokens true ts ++ [])) := by
      rw [List.append_nil, compile, scan, print, String.toList_ofList]
      rfl
    _ = run keep ((Token.settleAll keep ts).foldl Builder.absorb {})
        (scanFrom (.text fresh) line []) := eq
    _ = ((Token.settleAll keep ts).foldl Builder.absorb {}).finish (.finish line) := rfl
    _ = .ok (Token.gather (Token.settleAll keep ts)) := by
      simp only [Builder.finish, stack, level]

end Script

namespace TextBlock

variable {e : Encoding} {block : TextBlock} {bytes : List UInt8}

/-- A block in settled form. -/
def settle (keep : Bool) (block : TextBlock) : TextBlock :=
  { block with tokens := Token.gather (Token.settleAll keep block.tokens) }

/-- The script of a block that can be written is compiled to the settled tokens. -/
theorem compile_settle (written : block.encode e = .ok bytes) (keep : Bool) :
    Script.compile keep (Script.print false block.tokens) = .ok (block.settle keep).tokens := by
  simp only [encode, refuse_eq_ok, bind_eq_ok, pure_eq_ok, Prod.exists] at written
  obtain ⟨_, _, _, written, _⟩ := written
  exact Script.compile_print written keep

/-- A settled block is written with the same bytes. -/
theorem encode_settle (written : block.encode e = .ok bytes) (keep : Bool) :
    (block.settle keep).encode e = .ok bytes := by
  simp only [encode, refuse_eq_ok, bind_eq_ok, pure_eq_ok, Prod.exists] at written ⊢
  obtain ⟨low, count, body, written, rfl⟩ := written
  have settled := Markup.encodeTokens_settleAll keep 0 block.tokens written
  rw [← Markup.encodeTokens_gather] at settled
  exact ⟨low, count, body, settled, rfl⟩

/-- A block that can be written survives printing and compiling: what is compiled from its script
is written with the same bytes. A canonical block even comes out as it was, unless a comment of it
is dropped. -/
theorem recompile_exact (written : block.encode e = .ok bytes) (keep : Bool) :
    ∃ tokens, Script.compile keep (Script.print false block.tokens) = .ok tokens ∧
      TextBlock.encode e { block with tokens } = .ok bytes ∧
      (Token.AllCanonical block.tokens →
        (keep = true ∨ Token.anyComment block.tokens = false) → tokens = block.tokens) := by
  refine ⟨_, compile_settle written keep, encode_settle written keep, fun canon kept => ?_⟩
  rw [settle, Token.settleAll_of_allCanonical keep block.tokens canon kept,
    Token.gather_of_allCanonical canon]

/-- A canonical block whose texts need protection. -/
def guardedBlock : TextBlock :=
  ⟨104, [.comment " note", .text ";<x>\n",
    .span ⟨"RUBY", [("TEXT", "\"\\'> ")]⟩ [.text "a", .lineBreak], .pageBreak]⟩

/-- A block with an empty run, neighbouring runs, and a tag that is not spelled as in the table. -/
def looseBlock : TextBlock :=
  ⟨104, [.text "", .comment "a\nb", .span ⟨"a", [("name", "x"), ("id", " +07 ")]⟩ [], .text "x",
    .text "y"]⟩

/-- The one block comes out of its script as it was, the other with the same bytes. -/
theorem recompile_exact_samples :
    (∃ bytes, guardedBlock.encode .cp932 = .ok bytes ∧
      Script.compile true (Script.print false guardedBlock.tokens) = .ok guardedBlock.tokens) ∧
    ∃ bytes, looseBlock.encode .cp932 = .ok bytes ∧
      ∃ tokens, Script.compile false (Script.print false looseBlock.tokens) = .ok tokens ∧
        TextBlock.encode .cp932 { looseBlock with tokens } = .ok bytes := by
  have ruby : Tag.IsCanonical ⟨"RUBY", [("TEXT", "\"\\'> ")]⟩
      (.pair "RUBY" 0x13 [⟨"TEXT", .str⟩]) := by
    refine ⟨by decide, rfl, [(⟨"TEXT", .str⟩, "\"\\'> ")], .refl _, ?_, rfl⟩
    simp only [List.mem_singleton, forall_eq]
    trivial
  have canon : Token.AllCanonical guardedBlock.tokens := by
    simp only [guardedBlock, Token.AllCanonical, Token.IsCanonical]
    exact ⟨by simp, by decide, by decide, by decide, ⟨⟨_, ruby, rfl⟩, by decide, by decide, trivial,
      by decide, trivial⟩, by decide, trivial, by decide, trivial⟩
  constructor
  · have written : guardedBlock.encode .cp932 = .ok _ := rfl
    obtain ⟨tokens, compiled, _, same⟩ := recompile_exact written true
    rw [same canon (.inl rfl)] at compiled
    exact ⟨_, written, compiled⟩
  · have written : looseBlock.encode .cp932 = .ok _ := rfl
    obtain ⟨tokens, compiled, rebuilt, _⟩ := recompile_exact written false
    exact ⟨_, written, tokens, compiled, rebuilt⟩

end TextBlock

end NovelChart
