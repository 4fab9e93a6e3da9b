import NovelChart.Proofs.Saving
import NovelChart.Proofs.Unnamed

/-!
# Edits as a substitution of texts

A chart lists the texts of its segments line by line, and the segments of every line are numbered
from zero on. Replacing a text replaces one entry of the list, or removes it and counts the
entries behind it on the line down by one. Edits for different segments do so all at once, whatever
their order: they run from the last segment to the first, so each of them meets its segment under
the number that it has in the list.

## Main definitions

* `TextId.number`: texts under identifiers that count the segments of every line
* `TextId.reword`, `TextId.remove`: a list of texts in which one is replaced or removed
* `Chart.Replaced`: what replacing a text does to a chart
* `Chart.substitute`: what edits leave of a text

## Main results

* `Chart.hasText_iff`, `Chart.texts_eq_lines`, `Chart.texts_eq_number`: the texts of a chart, line
  by line
* `Chart.replaceText_effect`: when replacing a text fails, and what it does otherwise
* `Chart.replaceInOrder_reworded`: edits in descending order reword the chart
* `Chart.replaceTexts_simultaneous`: edits for different segments are one substitution
-/

namespace NovelChart

/-! ### Lists of texts -/

namespace TextId

/-- The texts of a line under their identifiers, numbered from a number on. -/
def onLine (name : String) (line first : Nat) (texts : List String) : List (TextId × String) :=
  (texts.zipIdx first).map fun (text, index) => (⟨name, line, index⟩, text)

/-- Texts with their lines under identifiers. The number of a text says how many stand before it on
its line. -/
def number (name : String) (entries : List (Nat × String)) : List (TextId × String) :=
  entries.zipIdx.map fun ((line, text), k) =>
    (⟨name, line, (entries.take k).countP fun entry => entry.1 = line⟩, text)

/-- A list of texts with another text for one segment. -/
def reword (id : TextId) (new : String) (entries : List (TextId × String)) :
    List (TextId × String) :=
  entries.map fun (other, text) =>
    (other, if other.line = id.line ∧ other.index = id.index then new else text)

/-- A list of texts without one segment. Those behind it on its line are counted down by one. -/
def remove (id : TextId) (entries : List (TextId × String)) : List (TextId × String) :=
  (entries.filter fun x => ¬(x.1.line = id.line ∧ x.1.index = id.index)).map fun (other, text) =>
    if other.line = id.line ∧ id.index < other.index then
      ({ other with index := other.index - 1 }, text)
    else (other, text)

variable {name : String} {id : TextId} {line first : Nat} {texts front back : List String}
  {old : String}

theorem onLine_append (name : String) (line first : Nat) (front back : List String) :
    onLine name line first (front ++ back) =
      onLine name line first front ++ onLine name line (first + front.length) back := by
  rw [onLine, List.zipIdx_append, List.map_append]
  rfl

theorem onLine_cons (name : String) (line first : Nat) (text : String) (texts : List String) :
    onLine name line first (text :: texts) =
      (⟨name, line, first⟩, text) :: onLine name line (first + 1) texts := by
  rw [onLine, List.zipIdx_cons, List.map_cons]
  rfl

theorem mem_onLine {x : TextId × String} (member : x ∈ onLine name line first texts) :
    x.1.line = line ∧ first ≤ x.1.index ∧ x.1.index < first + texts.length := by
  obtain ⟨⟨text, index⟩, inside, rfl⟩ := List.mem_map.mp member
  obtain ⟨low, high, _⟩ := List.mem_zipIdx inside
  exact ⟨rfl, low, high⟩

/-- Where the segment is not, nothing is replaced. -/
theorem reword_eq_self {entries : List (TextId × String)} {new : String}
    (elsewhere : ∀ x ∈ entries, ¬(x.1.line = id.line ∧ x.1.index = id.index)) :
    id.reword new entries = entries := by
  refine (List.map_congr_left fun x member => ?_).trans (List.map_id entries)
  dsimp only
  rw [if_neg (elsewhere x member)]
  rfl

theorem reword_onLine (length : front.length = id.index) (new : String) :
    id.reword new (onLine name id.line 0 (front ++ old :: back)) =
      onLine name id.line 0 (front ++ new :: back) := by
  have before : id.reword new (onLine name id.line 0 front) = onLine name id.line 0 front := by
    refine reword_eq_self fun x member => ?_
    have bounds := mem_onLine member
    omega
  have behind : id.reword new (onLine name id.line (id.index + 1) back) =
      onLine name id.line (id.index + 1) back := by
    refine reword_eq_self fun x member => ?_
    have bounds := mem_onLine member
    omega
  rw [onLine_append, onLine_append, onLine_cons, onLine_cons, length, Nat.zero_add]
  -- The right side is reworded in front of the segment and behind it, where nothing changes.
  nth_rewrite 2 [← before]
  nth_rewrite 2 [← behind]
  simp [reword]

/-- In front of the segment and on other lines, nothing is removed and nothing is counted down. -/
theorem remove_eq_self {entries : List (TextId × String)}
    (elsewhere : ∀ x ∈ entries, ¬(x.1.line = id.line ∧ id.index ≤ x.1.index)) :
    id.remove entries = entries := by
  have all : (entries.filter fun x => ¬(x.1.line = id.line ∧ x.1.index = id.index)) = entries := by
    refine List.filter_eq_self.mpr fun x member => decide_eq_true fun here => ?_
    exact elsewhere x member ⟨here.1, here.2.ge⟩
  rw [remove, all]
  refine (List.map_congr_left fun x member => ?_).trans (List.map_id entries)
  dsimp only
  rw [if_neg fun here => elsewhere x member ⟨here.1, here.2.le⟩]
  rfl

theorem remove_append (id : TextId) (front back : List (TextId × String)) :
    id.remove (front ++ back) = id.remove front ++ id.remove back := by
  rw [remove, List.filter_append, List.map_append]
  rfl

/-- Behind the segment everything is counted down. -/
theorem remove_behind (texts : List String) :
    id.remove (onLine name id.line (id.index + 1) texts) = onLine name id.line id.index texts := by
  have all : ((onLine name id.line (id.index + 1) texts).filter fun x =>
      ¬(x.1.line = id.line ∧ x.1.index = id.index)) =
        onLine name id.line (id.index + 1) texts := by
    refine List.filter_eq_self.mpr fun x member => decide_eq_true fun here => ?_
    have bounds := mem_onLine member
    omega
  -- Nothing is removed, and the numbers are those of the same texts from one place before.
  rw [remove, all, onLine, List.zipIdx_succ, List.map_map, List.map_map]
  refine List.map_congr_left fun x member => ?_
  have low := List.le_snd_of_mem_zipIdx member
  simp only [Function.comp_apply]
  rw [if_pos ⟨trivial, by omega⟩, Nat.add_sub_cancel]

theorem remove_onLine (length : front.length = id.index) :
    id.remove (onLine name id.line 0 (front ++ old :: back)) =
      onLine name id.line 0 (front ++ back) := by
  have before : id.remove (onLine name id.line 0 front) = onLine name id.line 0 front := by
    refine remove_eq_self fun x member => ?_
    have bounds := mem_onLine member
    omega
  have here : id.remove [(⟨name, id.line, id.index⟩, old)] = [] := by
    simp [remove]
  rw [onLine_append, onLine_append, onLine_cons, length, Nat.zero_add, remove_append, before,
    ← List.singleton_append, remove_append, here, remove_behind, List.nil_append]

theorem number_append (name : String) (entries : List (Nat × String)) (line : Nat)
    (texts : List String) (fresh : ∀ entry ∈ entries, entry.1 ≠ line) :
    number name (entries ++ texts.map (Prod.mk line)) =
      number name entries ++ onLine name line 0 texts := by
  rw [number, List.zipIdx_append, List.map_append]
  congr 1
  · refine List.map_congr_left fun x member => ?_
    have inside := List.snd_lt_of_mem_zipIdx member
    dsimp only
    rw [List.take_append_of_le_length (by omega)]
  · rw [List.zipIdx_map, List.map_map, onLine, Nat.zero_add, List.zipIdx_eq_map_add, List.map_map]
    refine List.map_congr_left fun x member => ?_
    have few := List.snd_lt_of_mem_zipIdx member
    -- None of the entries in front is on the line, and all of the texts are.
    have none : (entries.countP fun entry => entry.1 = line) = 0 := by
      simpa [List.countP_eq_zero] using fresh
    have count : ((texts.take x.2).map (Prod.mk line)).countP (fun entry => entry.1 = line) =
        x.2 := by
      have all : ∀ text ∈ texts.take x.2, ((fun entry : Nat × String => decide (entry.1 = line)) ∘
          Prod.mk line) text = true := fun _ _ => decide_eq_true rfl
      rw [List.countP_map, List.countP_eq_length.mpr all, List.length_take]
      omega
    simp only [Function.comp_apply, Prod.map_fst, Prod.map_snd, id_eq]
    rw [List.take_length_add_append, List.countP_append, none, ← List.map_take, count, Nat.zero_add]

end TextId

namespace Chart

variable {c c' : Chart} {id : TextId} {name text old : String} {line index : Nat}

theorem lineTexts_eq_nil (none : ∀ block, c.block line ≠ .ok block) : c.lineTexts line = [] := by
  rw [lineTexts]
  cases carried : c.commands[line]?.bind Command.text? with
  | none => rfl
  | some block =>
    have there := Option.bind_eq_some_iff.mp carried
    exact absurd (block_eq_ok.mpr there) (none block)

/-- The segments of a line are counted along its texts. -/
theorem hasText_iff : c.HasText line index text ↔ (c.lineTexts line)[index]? = some text := by
  have listed : ∀ {block}, c.block line = .ok block →
      ((index, text) ∈ blockTexts block ↔ (c.lineTexts line)[index]? = some text) := by
    intro block there
    rw [lineTexts_of_block there, ← List.mem_zipIdx_iff_getElem? (x := (text, index)),
      zipIdx_lineTexts]
    exact (List.mem_map_of_injective Prod.swap_injective).symm
  constructor
  · rintro ⟨block, seg, there, found⟩
    exact (listed there).mp (mem_blockTexts.mpr ⟨seg, found⟩)
  · intro found
    by_cases carried : ∃ block, c.block line = .ok block
    · obtain ⟨block, there⟩ := carried
      obtain ⟨seg, found⟩ := mem_blockTexts.mp ((listed there).mpr found)
      exact ⟨block, seg, there, found⟩
    · -- A line without a block has no texts.
      rw [lineTexts_eq_nil (not_exists.mp carried)] at found
      cases found

/-- The texts of a chart are those of its lines. -/
theorem texts_eq_lines (c : Chart) (name : String) : c.texts name =
    (List.range c.commands.length).flatMap fun line =>
      TextId.onLine name line 0 (c.lineTexts line) := by
  rw [List.range_eq_range', ← List.zipIdx_map_snd 0 c.commands, List.flatMap_map, texts, lines]
  refine List.flatMap_congr fun x member => ?_
  obtain ⟨command, line⟩ := x
  have found := List.mem_zipIdx_iff_getElem?.mp member
  dsimp only at found ⊢
  cases carries : command.text? with
  | none =>
    rw [lineTexts, found, Option.bind_some, carries]
    rfl
  | some block =>
    rw [lineTexts_of_block (block_eq_ok.mpr ⟨command, found, carries⟩), TextId.onLine,
      zipIdx_lineTexts, List.map_map]
    rfl

/-- The identifiers of a chart count the segments of every line. -/
theorem texts_eq_number (c : Chart) (name : String) : c.texts name =
    TextId.number name ((c.texts name).map fun (id, text) => (id.line, text)) := by
  have counted : ∀ n, TextId.number name
      ((List.range n).flatMap fun line => (c.lineTexts line).map (Prod.mk line)) =
        (List.range n).flatMap fun line => TextId.onLine name line 0 (c.lineTexts line) := by
    intro n
    induction n with
    | zero => rfl
    | succ n ih =>
      rw [List.range_succ, List.flatMap_append, List.flatMap_append, List.flatMap_singleton,
        List.flatMap_singleton, TextId.number_append, ih]
      -- The lines so far are other ones.
      intro entry member same
      obtain ⟨line, low, inside⟩ := List.mem_flatMap.mp member
      obtain ⟨_, _, rfl⟩ := List.mem_map.mp inside
      exact Nat.ne_of_lt (List.mem_range.mp low) same
  have lines : (c.texts name).map (fun (id, text) => (id.line, text)) =
      (List.range c.commands.length).flatMap fun line => (c.lineTexts line).map (Prod.mk line) := by
    rw [texts_eq_lines, List.map_flatMap]
    refine List.flatMap_congr fun line _ => ?_
    conv_rhs => rw [← List.zipIdx_map_fst 0 (c.lineTexts line), List.map_map]
    rw [TextId.onLine, List.map_map]
    rfl
  rw [lines, counted, ← texts_eq_lines]

/-! ### One edit -/

/-- What replacing the text of a segment does to a chart, if the text is another one: one entry is
replaced or removed in the list of texts, and of its block only text and line breaks change. -/
structure Replaced (c : Chart) (id : TextId) (text : String) (c' : Chart) : Prop where
  texts : ∀ name, c'.texts name =
    if Text.settled text = "" then id.remove (c.texts name)
    else id.reword (Text.settled text) (c.texts name)
  block : ∃ block tokens, c.block id.line = .ok block ∧
    c' = c.setBlock id.line { block with tokens := tokens } ∧
    Token.outlineAll tokens = Token.outlineAll block.tokens
  commands : ∀ line, line ≠ id.line → c'.commands[line]? = c.commands[line]?
  labels : c'.labels = c.labels
  header : c'.header = c.header

/-- The list of texts of a chart in which one line is another one. -/
theorem texts_eq_of_line {front back : List String} {new : Option String}
    (cut : c.lineTexts id.line = front ++ old :: back) (length : front.length = id.index)
    (lines : ∀ line, c'.lineTexts line =
      if line = id.line then front ++ (new.toList ++ back) else c.lineTexts line)
    (same : c'.commands.length = c.commands.length) (name : String) :
    c'.texts name = new.elim (id.remove (c.texts name)) fun new =>
      id.reword new (c.texts name) := by
  have elsewhere : ∀ line, line ≠ id.line →
      ∀ x ∈ TextId.onLine name line 0 (c.lineTexts line), x.1.line ≠ id.line :=
    fun line other x member here => other ((TextId.mem_onLine member).1.symm.trans here)
  rw [texts_eq_lines, texts_eq_lines, same]
  -- Both lists are made line by line, and all lines but one are the same in them.
  cases new with
  | none =>
    rw [Option.elim_none, TextId.remove, List.filter_flatMap, List.map_flatMap]
    refine List.flatMap_congr fun line _ => ?_
    rw [lines line]
    by_cases here : line = id.line
    · subst here
      rw [if_pos rfl, cut, Option.toList_none, List.nil_append]
      exact (TextId.remove_onLine length).symm
    · rw [if_neg here]
      exact (TextId.remove_eq_self fun x member place => elsewhere line here x member place.1).symm
  | some new =>
    rw [Option.elim_some, TextId.reword, List.map_flatMap]
    refine List.flatMap_congr fun line _ => ?_
    rw [lines line]
    by_cases here : line = id.line
    · subst here
      rw [if_pos rfl, cut, Option.toList_some, List.singleton_append]
      exact (TextId.reword_onLine length new).symm
    · rw [if_neg here]
      exact (TextId.reword_eq_self fun x member place => elsewhere line here x member place.1).symm

/-- A text that was replaced is that of a segment. -/
theorem exists_old_text (edited : c.replaceText id text = .ok c') :
    ∃ old block seg, c.block id.line = .ok block ∧
      (Segment.ofTokens block.tokens)[id.index]? = some seg ∧
      Segment.text? block.tokens seg = some old ∧
      c' = if text = old then c else c.setBlock id.line
        { block with tokens := seg.replace block.tokens (plainTokens text) } := by
  obtain ⟨_, block, seg, there, found, rfl⟩ := replaceText_eq_ok.mp edited
  have inside : Segment.text? block.tokens seg ∈ Segment.texts block.tokens :=
    List.mem_map_of_mem (List.mem_of_getElem? found)
  obtain ⟨old, here⟩ := Option.isSome_iff_exists.mp (Segment.isSome_texts block.tokens _ inside)
  refine ⟨old, block, seg, there, found, here, ?_⟩
  rw [here]
  simp only [Option.some.injEq, eq_comm]

/-- Replacing a text fails if the text cannot be written, or if there is nothing to replace. -/
theorem exists_replaceText_error : (∃ cause, c.replaceText id text = .error cause) ↔
    (∃ ch ∈ text.toList, c.encoding.encodeChar ch = none) ∨
    c.commands.length ≤ id.line ∨
    (∃ command, c.commands[id.line]? = some command ∧ command.text? = none) ∨
    ∃ block, c.block id.line = .ok block ∧
      (Segment.ofTokens block.tokens).length ≤ id.index := by
  have failed : (∃ cause, c.replaceText id text = .error cause) ↔
      ¬∃ c', c.replaceText id text = .ok c' := by
    cases c.replaceText id text with
    | ok c' => simp
    | error cause => simp
  rw [failed]
  constructor
  · -- What stands in the way of success is found by going through its conditions.
    intro refused
    by_cases encodable : ∀ ch ∈ text.toList, (c.encoding.encodeChar ch).isSome = true
    · refine .inr ?_
      cases found : c.commands[id.line]? with
      | none => exact .inl (List.getElem?_eq_none_iff.mp found)
      | some command =>
        refine .inr ?_
        cases carries : command.text? with
        | none => exact .inl ⟨command, rfl, carries⟩
        | some block =>
          have there : c.block id.line = .ok block := block_eq_ok.mpr ⟨command, found, carries⟩
          refine .inr ⟨block, there, List.getElem?_eq_none_iff.mp ?_⟩
          by_contra present
          obtain ⟨seg, here⟩ := Option.ne_none_iff_exists'.mp present
          exact refused ⟨_, replaceText_eq_ok.mpr
            ⟨Encoding.check_eq_ok.mpr encodable, block, seg, there, here, rfl⟩⟩
    · push Not at encodable
      obtain ⟨ch, member, missing⟩ := encodable
      exact .inl ⟨ch, member, Option.not_isSome_iff_eq_none.mp missing⟩
  · rintro reason ⟨c', edited⟩
    obtain ⟨checked, block, seg, there, here, _⟩ := replaceText_eq_ok.mp edited
    obtain ⟨command, found, carries⟩ := block_eq_ok.mp there
    rcases reason with ⟨ch, member, missing⟩ | few | ⟨command', found', none⟩ | ⟨block', there', few⟩
    · have written := Encoding.check_eq_ok.mp checked ch member
      rw [missing] at written
      cases written
    · rw [List.getElem?_eq_none_iff.mpr few] at found
      cases found
    · rw [found] at found'
      cases found'
      rw [none] at carries
      cases carries
    · rw [there] at there'
      cases there'
      rw [List.getElem?_eq_none_iff.mpr few] at here
      cases here

/-- Putting plain text in place of a segment replaces the text of the segment. -/
theorem replaced_setBlock {block : TextBlock} {seg : Segment} (there : c.block id.line = .ok block)
    (found : (Segment.ofTokens block.tokens)[id.index]? = some seg) (text : String) :
    c.Replaced id text (c.setBlock id.line
      { block with tokens := seg.replace block.tokens (plainTokens text) }) := by
  obtain ⟨front, old, back, cut, length, changed⟩ := blockTexts_replace found text
  rw [← lineTexts_of_block there] at cut
  have lines : ∀ line, (c.setBlock id.line
      { block with tokens := seg.replace block.tokens (plainTokens text) }).lineTexts line =
        if line = id.line then front ++ ((Text.settled? text).toList ++ back)
        else c.lineTexts line := by
    intro line
    rw [lineTexts_setBlock there, changed]
  refine ⟨fun name => ?_, ⟨block, _, there, rfl, ?_⟩, fun line elsewhere => ?_, rfl, rfl⟩
  · rw [texts_eq_of_line cut length lines (List.length_modify _ _ _), Text.settled?]
    by_cases empty : Text.settled text = ""
    · rw [if_pos (String.isEmpty_iff.mpr empty), if_pos empty, Option.elim_none]
    · rw [if_neg (mt String.isEmpty_iff.mp empty), if_neg empty, Option.elim_some]
  · exact Segment.outlineAll_replace (isPlain_plainTokens text) _ seg (List.mem_of_getElem? found)
  · exact List.getElem?_modify_ne _ _ (Ne.symm elsewhere)

theorem replaceTexts_singleton (c : Chart) (id : TextId) (text : String) :
    c.replaceTexts [(id, text)] = match c.replaceText id text with
      | .ok c' => (.ok 1, c')
      | .error cause => (.error cause, c) := by
  rw [replaceTexts, List.mergeSort_singleton, replaceInOrder]
  cases c.replaceText id text with
  | ok c' => rfl
  | error cause => rfl

/-- Replacing a text fails if and only if the text has a character that cannot be written, or there
is no such line, text block or segment, and then the chart stays. Otherwise the chart stays if the
segment has this text, and if it has another one, then this one is replaced in the list of texts, or
removed, and nothing but text and line breaks of one block changes. -/
theorem replaceText_effect (c : Chart) (id : TextId) (text : String) :
    ((∃ cause, c.replaceText id text = .error cause) ↔
      (∃ ch ∈ text.toList, c.encoding.encodeChar ch = none) ∨
      c.commands.length ≤ id.line ∨
      (∃ command, c.commands[id.line]? = some command ∧ command.text? = none) ∨
      ∃ block, c.block id.line = .ok block ∧
        (Segment.ofTokens block.tokens).length ≤ id.index) ∧
    (∀ cause, c.replaceText id text = .error cause →
      c.replaceTexts [(id, text)] = (.error cause, c)) ∧
    ∀ c', c.replaceText id text = .ok c' → c.replaceTexts [(id, text)] = (.ok 1, c') ∧
      ∃ old, (∀ name, (⟨name, id.line, id.index⟩, old) ∈ c.texts name) ∧
        (text = old → c' = c) ∧ (text ≠ old → c.Replaced id text c') := by
  refine ⟨exists_replaceText_error, fun cause failed => ?_, fun c' edited => ⟨?_, ?_⟩⟩
  · rw [replaceTexts_singleton, failed]
  · rw [replaceTexts_singleton, edited]
  · obtain ⟨old, block, seg, there, found, here, rfl⟩ := exists_old_text edited
    refine ⟨old, fun name => mem_texts.mpr ⟨rfl, block, seg, there, found, here⟩,
      fun same => if_pos same, fun other => ?_⟩
    rw [if_neg other]
    exact replaced_setBlock there found text

set_option maxRecDepth 10000 in
/-- A return and a line feed remove the first segment of the sample, and the second one moves up. -/
theorem replaceText_effect_sample : ∃ c',
    sample.marked.replaceText ⟨"c", 0, 0⟩ "\r\n" = .ok c' ∧
      sample.marked.texts "c" = [(⟨"c", 0, 0⟩, "Hi;"), (⟨"c", 0, 1⟩, "ｱ")] ∧
      c'.texts "c" = [(⟨"c", 0, 0⟩, "ｱ")] ∧ c'.labels = sample.marked.labels := by
  have before : sample.marked.texts "c" = [(⟨"c", 0, 0⟩, "Hi;"), (⟨"c", 0, 1⟩, "ｱ")] := by
    decide
  have listed : ∀ old, (⟨"c", 0, 0⟩, old) ∈ sample.marked.texts "c" → old = "Hi;" := by
    rw [before]
    simp
  obtain ⟨_, _, done⟩ := replaceText_effect sample.marked ⟨"c", 0, 0⟩ "\r\n"
  obtain ⟨_, old, there, _, changed⟩ := done _ (by rfl)
  have replaced := changed (by rw [listed old (there "c")]; decide)
  refine ⟨_, rfl, before, ?_, replaced.labels⟩
  rw [replaced.texts, before, if_pos (by decide)]
  decide

/-! ### Many edits -/

variable {edits : List (TextId × String)} {f : Nat → Nat → Option String}

/-- The edit for a segment, if there is one. -/
def editAt? (edits : List (TextId × String)) (line index : Nat) : Option (TextId × String) :=
  edits.find? fun x => x.1.line = line ∧ x.1.index = index

/-- What edits leave of a text. A text without an edit stays, and so does one whose edit brings the
same text. -/
def substitute (edits : List (TextId × String)) (id : TextId) (old : String) : Option String :=
  match editAt? edits id.line id.index with
  | some (_, new) => if new = old then some old else Text.settled? new
  | none => some old

/-- The new texts that edits bring to a chart, on top of others. -/
def wording (c : Chart) (edits : List (TextId × String)) (f : Nat → Nat → Option String)
    (line index : Nat) : Option String :=
  match editAt? edits line index with
  | some (_, new) => if (c.lineTexts line)[index]? = some new then none else some new
  | none => f line index

theorem editAt?_cons_self (x : TextId × String) (edits : List (TextId × String)) :
    editAt? (x :: edits) x.1.line x.1.index = some x :=
  List.find?_cons_of_pos (by simp)

theorem editAt?_cons_of_ne {x : TextId × String} (other : ¬(line = x.1.line ∧ index = x.1.index)) :
    editAt? (x :: edits) line index = editAt? edits line index :=
  List.find?_cons_of_neg fun here =>
    have ⟨sameLine, sameIndex⟩ := of_decide_eq_true here
    other ⟨sameLine.symm, sameIndex.symm⟩

/-- Edits in front of a segment are not for it. -/
theorem editAt?_of_before (before : ∀ x ∈ edits, x.1.Before id) :
    editAt? edits id.line id.index = none := by
  refine List.find?_eq_none.mpr fun x member here => ?_
  have before := before x member
  rw [decide_eq_true_iff] at here
  rw [TextId.Before] at before
  omega

/-- The first of the edits, and then the others. -/
theorem wording_cons {x : TextId × String} (before : ∀ y ∈ edits, y.1.Before x.1)
    (has : c.HasText x.1.line x.1.index old) : c.wording (x :: edits) f =
      c.wording edits (Function.update f x.1.line (Function.update (f x.1.line) x.1.index
        (if x.2 = old then none else some x.2))) := by
  funext line index
  rw [wording, wording, update_place]
  by_cases here : line = x.1.line ∧ index = x.1.index
  · -- The other edits are in front of this one, so none of them is for its segment.
    rw [here.1, here.2, editAt?_cons_self, editAt?_of_before before, hasText_iff.mp has]
    simp [eq_comm]
  · rw [editAt?_cons_of_ne here, if_neg here]

/-- Edits in descending order reword the chart. Those that were made before are behind them. -/
theorem replaceInOrder_reworded (descending : edits.Pairwise fun x y => y.1.Before x.1)
    (has : ∀ x ∈ edits, ∃ old, c.HasText x.1.line x.1.index old)
    (encodable : ∀ x ∈ edits, c.encoding.check x.2 = .ok ())
    (skipped : ∀ x ∈ edits, ∀ j ≤ x.1.index, f x.1.line j = none) :
    replaceInOrder edits (c.reworded f) = (.ok (), c.reworded (c.wording edits f)) := by
  -- `f` is what the edits so far brought, all of it behind those that are left.
  induction edits generalizing f with
  | nil => rfl
  | cons x edits ih =>
    obtain ⟨before, descending⟩ := List.pairwise_cons.mp descending
    obtain ⟨⟨old, has₁⟩, has⟩ := List.forall_mem_cons.mp has
    obtain ⟨encodable₁, encodable⟩ := List.forall_mem_cons.mp encodable
    obtain ⟨skipped₁, skipped⟩ := List.forall_mem_cons.mp skipped
    rw [replaceInOrder, replaceText_reworded_of_hasText has₁ skipped₁ encodable₁,
      wording_cons before has₁]
    refine ih descending has encodable fun y member j low => ?_
    -- The edits that follow are in front of this one.
    have front := before y member
    rw [update_place, if_neg, skipped y member j low]
    rw [TextId.Before] at front
    omega

theorem lineTexts_reworded (c : Chart) (f : Nat → Nat → Option String) (line : Nat) :
    (c.reworded f).lineTexts line =
      Text.survivors (fun index old => (f line index).elim (some old) Text.settled?)
        (c.lineTexts line) := by
  rw [lineTexts, lineTexts, getElem?_reworded]
  cases c.commands[line]? with
  | none => rfl
  | some command =>
    rw [Option.map_some, Option.bind_some, Option.bind_some, Command.text?_mapText]
    cases command.text? with
    | none => rfl
    | some block =>
      dsimp only [Option.map_some]
      rw [blockTexts_fill, Text.survivors, zipIdx_lineTexts, List.filterMap_map,
        List.filterMap_eq_flatMap_toList]
      congr 1
      funext x
      obtain ⟨index, text⟩ := x
      dsimp only [Function.comp_apply, Prod.swap_prod_mk]
      cases f line index with
      | none => rw [Text.renewed, Option.elim_none, Option.toList_some]
      | some new => rw [Text.renewed, Option.elim_some]

/-- Sorting edits for different segments forgets their order. -/
theorem mergeSort_eq_of_perm {order : List (TextId × String)} (perm : order.Perm edits)
    (apart : edits.Pairwise fun x y => ¬SamePlace x y) :
    order.mergeSort notBefore = edits.mergeSort notBefore := by
  have distinct : (edits.map fun x => (x.1.line, x.1.index)).Nodup :=
    List.pairwise_map.mpr (apart.imp fun other same => other (Prod.mk.inj same))
  refine List.Perm.eq_of_pairwise ?_ (sorted_mergeSort order) (sorted_mergeSort edits)
    ((List.mergeSort_perm order notBefore).trans
      (perm.trans (List.mergeSort_perm edits notBefore).symm))
  intro x y inside inside' before before'
  rw [List.mem_mergeSort] at inside inside'
  -- Edits that may each run before the other are for one segment, so they are one edit.
  rw [notBefore_iff] at before before'
  exact List.inj_on_of_nodup_map distinct (perm.mem_iff.mp inside) inside'
    (Prod.ext (by omega) (by omega))

/-- Edits for different segments are sorted in descending order. -/
theorem mergeSort_descending (apart : edits.Pairwise fun x y => ¬SamePlace x y) :
    (edits.mergeSort notBefore).Pairwise fun x y => y.1.Before x.1 := by
  refine List.Pairwise.imp₂ (fun x y before other => ?_) (sorted_mergeSort edits)
    (pairwise_mergeSort_place apart)
  have other : ¬(x.1.line = y.1.line ∧ x.1.index = y.1.index) := other
  rw [notBefore_iff] at before
  rw [TextId.Before]
  omega

theorem editAt?_mergeSort (edits : List (TextId × String)) (line index : Nat) :
    editAt? (edits.mergeSort notBefore) line index = editAt? edits line index := by
  rw [editAt?, editAt?, ← List.head?_filter, ← List.head?_filter, filter_mergeSort]

/-- What a new text leaves of a text that it is to replace. -/
theorem elim_wording (has : c.HasText id.line id.index old) :
    (c.wording (edits.mergeSort notBefore) (fun _ _ => none) id.line id.index).elim (some old)
      Text.settled? = substitute edits id old := by
  rw [wording, substitute, editAt?_mergeSort, hasText_iff.mp has]
  cases editAt? edits id.line id.index with
  | none => rfl
  | some x =>
    by_cases same : x.2 = old
    · simp [same]
    · simp [same, Ne.symm same]

/-- Edits for different segments that are there, with texts that can be written, act as one
substitution: all of them are made, their order does not matter, and afterwards the texts are listed
in their order, each with what its edit leaves of it. -/
theorem replaceTexts_simultaneous (apart : edits.Pairwise fun x y => ¬SamePlace x y)
    (has : ∀ x ∈ edits, ∃ old, c.HasText x.1.line x.1.index old)
    (encodable : ∀ x ∈ edits, ∀ ch ∈ x.2.toList, (c.encoding.encodeChar ch).isSome = true) :
    ∃ c', (∀ order, order.Perm edits → c.replaceTexts order = (.ok edits.length, c')) ∧
      ∀ name, c'.texts name = TextId.number name ((c.texts name).filterMap fun (id, old) =>
        (substitute edits id old).map fun new => (id.line, new)) := by
  have run : replaceInOrder (edits.mergeSort notBefore) c =
      (.ok (), c.reworded (c.wording (edits.mergeSort notBefore) fun _ _ => none)) := by
    have reworded := replaceInOrder_reworded (c := c) (f := fun _ _ => none)
      (mergeSort_descending apart) (fun x member => has x (List.mem_mergeSort.mp member))
      (fun x member => Encoding.check_eq_ok.mpr (encodable x (List.mem_mergeSort.mp member)))
      (fun _ _ _ _ => rfl)
    rwa [reworded_none] at reworded
  refine ⟨c.reworded (c.wording (edits.mergeSort notBefore) fun _ _ => none),
    fun order perm => ?_, fun name => ?_⟩
  · rw [replaceTexts, mergeSort_eq_of_perm perm apart, run, perm.length_eq]
    rfl
  · rw [texts_eq_number]
    congr 1
    refine (texts_mapBlocks (lineTexts_reworded c _) name).trans
      (List.filterMap_congr fun x member => ?_)
    obtain ⟨_, there⟩ := mem_texts.mp member
    dsimp only
    rw [elim_wording there]

set_option maxRecDepth 10000 in
/-- The first segment of the sample is removed and the second one gets two lines, whichever of the
edits is first. -/
theorem replaceTexts_simultaneous_sample : ∃ c', c'.texts "c" = [(⟨"c", 0, 0⟩, "a\nb")] ∧
    sample.marked.replaceTexts [(⟨"c", 0, 0⟩, "\n"), (⟨"c", 0, 1⟩, "a\r\nb")] = (.ok 2, c') ∧
    sample.marked.replaceTexts [(⟨"c", 0, 1⟩, "a\r\nb"), (⟨"c", 0, 0⟩, "\n")] = (.ok 2, c') := by
  have has : ∀ x ∈ [(⟨"c", 0, 0⟩, "\n"), ((⟨"c", 0, 1⟩ : TextId), "a\r\nb")],
      ∃ old, sample.marked.HasText x.1.line x.1.index old := by
    refine List.forall_mem_cons.mpr ⟨⟨"Hi;", hasText_iff.mpr (by decide)⟩, ?_⟩
    exact List.forall_mem_singleton.mpr ⟨"ｱ", hasText_iff.mpr (by decide)⟩
  have letters : ([((⟨"c", 0, 0⟩ : TextId), "\n"), (⟨"c", 0, 1⟩, "a\r\nb")].all fun x =>
      x.2.toList.all fun ch => (Encoding.cp932.encodeChar ch).isSome) = true := by
    decide
  obtain ⟨c', done, texts⟩ := replaceTexts_simultaneous (c := sample.marked) (by decide) has
    fun x member => List.all_eq_true.mp (List.all_eq_true.mp letters x member)
  refine ⟨c', ?_, done _ (List.Perm.refl _), done _ (List.Perm.swap _ _ _)⟩
  rw [texts]
  decide

end Chart

end NovelChart
