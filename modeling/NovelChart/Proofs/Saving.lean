import NovelChart.Proofs.Conformance
import NovelChart.Proofs.Replacement

/-!
# New texts are saved up to look-alikes

A new text is let into a chart when the encoding can write each of its characters. That is enough
for the chart to be written again, but not for the text to be read back: CP932 writes the yen sign,
the overline and the minus sign with the codes of a backslash, a tilde and a full-width hyphen.
Everything else of the chart was read, so it is read back as it is; the new text is read back with
these three characters replaced, and unchanged if it has none of them.

## Main definitions

* `TextTarget`, `TextTarget.insert`: what a new text is put into: a segment, a block, a choice
* `Command.Edited`: what putting in a text makes of one command

## Main results

* `Command.Spelled.reread_eq`: a command that was read is read back as it is
* `TextTarget.edited`: a new text edits one command and leaves the frame of the chart
* `TextTarget.saved`: a chart with a new text is written, and read back up to look-alikes
* `TextTarget.saved_yen`: the yen sign is not read back
-/

namespace NovelChart

variable {e : Encoding} {bytes : List UInt8} {text : String}

/-! ### What was read is read back as it is -/

/-- A text that survives is read back as itself. -/
theorem Encoding.Survives.reread_eq {s : String} (survives : e.Survives s) : e.reread s = s := by
  obtain ⟨bytes, written, decoded⟩ := survives
  exact Except.ok.inj ((Encoding.decode_of_encode written).symm.trans decoded)

/-- A text without look-alikes is read back as itself. -/
theorem Encoding.reread_of_plain (plain : ∀ c ∈ text.toList, e = .cp932 → c ≠ '¥' ∧ c ≠ '‾' ∧
    c ≠ '−') : e.reread text = text := by
  refine Encoding.reread_eq_self_iff.mpr fun c member => ?_
  cases e with
  | utf8 => rfl
  | cp932 =>
    obtain ⟨yen, overline, minus⟩ := plain c member rfl
    rw [Encoding.rereadChar, if_neg yen, if_neg overline, if_neg minus]

theorem Parameters.Spelled.reread_eq {s : Schema} {p : Parameters}
    (wide : ∀ fields, s.tail = some fields → 2 ≤ Field.minSizes fields)
    (spelled : Parameters.Spelled e s bytes p) (small : bytes.length < 2 ^ 32) :
    p.reread e = p := by
  have written : p.encode e ⟨0⟩ s = .ok bytes := spelled.encode_eq
  obtain ⟨written, canon, survives⟩ := Parameters.encode_reread written
  have again := Parameters.spelled_of_encode wide written canon survives small
  -- The bytes stand for one body only.
  have read : Parameters.decode ⟨e, true⟩ s ⟨none, 0, bytes⟩ = .ok p :=
    Parameters.decode_eq_ok.mpr spelled
  have read' : Parameters.decode ⟨e, true⟩ s ⟨none, 0, bytes⟩ = .ok (p.reread e) :=
    Parameters.decode_eq_ok.mpr again
  exact Except.ok.inj (read'.symm.trans read)

namespace Command

variable {c c' : Command}

/-- The parameters of a command that was read are read back as they are. -/
theorem Spelled.params_reread {p : Parameters} (spelled : Command.Spelled e bytes c)
    (typed : c.body = .typed p) : p.reread e = p := by
  obtain ⟨schema, inner, known, small, spelled⟩ := spelled.params typed
  exact spelled.reread_eq (Opcode.two_le_minSizes known) small

/-- A command that was read is read back as it is. -/
theorem Spelled.reread_eq (spelled : Command.Spelled e bytes c) : c.reread e = c := by
  cases typed : c.body with
  | raw body => rw [reread, mapParams, typed]
  | typed p =>
    rw [reread, mapParams, typed]
    dsimp only
    rw [spelled.params_reread typed, ← typed]

end Command

theorem Chart.Image.labels_reread {c : Chart} {layout : Layout}
    (image : Chart.Image e bytes c layout) : c.labels.map (Label.reread e) = c.labels := by
  obtain ⟨_, _, _, _, _, _, _, _, ⟨_, _, many, _⟩, _⟩ := image
  refine (List.map_congr_left fun l member => ?_).trans (List.map_id _)
  obtain ⟨_, _, ⟨_, _, _, decoded⟩, _⟩ := many.spelled member
  rw [Label.reread, (Encoding.survives_of_decode decoded).reread_eq]
  rfl

/-- A canonical block is read back token by token. -/
theorem TextBlock.reread_of_canonical {block : TextBlock}
    (canon : Token.AllCanonical block.tokens ∧ Token.anyComment block.tokens = false) :
    block.reread e = { block with tokens := Token.rereadAll e block.tokens } := by
  rw [reread, settle, Token.settleAll_of_allCanonical false block.tokens canon.1 (.inr canon.2),
    Token.gather_of_allCanonical canon.1]

/-- A block can be written when its version and its tokens can. -/
theorem TextBlock.exists_encode {block : TextBlock} : (∃ bytes, block.encode e = .ok bytes) ↔
    block.version.toNat ≤ 999 ∧ ∃ r, Markup.encodeTokens e 0 block.tokens = .ok r := by
  simp only [encode, refuse_eq_ok, bind_eq_ok, pure_eq_ok, Prod.exists, Nat.not_lt]
  constructor
  · rintro ⟨_, low, n, body, written, _⟩
    exact ⟨low, n, body, written⟩
  · rintro ⟨low, n, body, written⟩
    exact ⟨_, low, n, body, written, rfl⟩

/-- Plain text in place of a segment leaves tokens canonical. -/
theorem Segment.canonical_replace {ts : List Token} {seg : Segment} (member : seg ∈ ofTokens ts)
    (canon : Token.AllCanonical ts ∧ Token.anyComment ts = false) :
    Token.AllCanonical (seg.replace ts (plainTokens text)) ∧
      Token.anyComment (seg.replace ts (plainTokens text)) = false := by
  have replaced := replaces_replace (plainTokens text) ts seg member
  exact ⟨replaced.allCanonical (allCanonical_plainTokens text) canon.1,
    replaced.anyComment (anyComment_plainTokens text) canon.2⟩

/-! ### Other parameters -/

theorem Field.exists_encodeAll_set {label : Field → String} {fields : List Field}
    {values : List Value} {i : Nat} {f : Field} {v : Value}
    (written : ∃ bytes, encodeAll e label fields values = .ok bytes)
    (found : fields[i]? = some f) (new : ∃ bytes, v.encode e f.kind (label f) = .ok bytes) :
    ∃ bytes, encodeAll e label fields (values.set i v) = .ok bytes := by
  induction fields generalizing values i with
  | nil => cases found
  | cons g fields ih =>
    cases values with
    | nil => exact ⟨[], rfl⟩
    | cons w values =>
      simp only [encodeAll, bind_eq_ok, pure_eq_ok] at written
      obtain ⟨_, first, written₁, more, written₂, rfl⟩ := written
      cases i with
      | zero =>
        cases found
        obtain ⟨first', new⟩ := new
        simp only [List.set_cons_zero, encodeAll, bind_eq_ok, pure_eq_ok]
        exact ⟨_, first', new, more, written₂, rfl⟩
      | succ i =>
        obtain ⟨more', written'⟩ := ih ⟨more, written₂⟩ found
        simp only [List.set_cons_succ, encodeAll, bind_eq_ok, pure_eq_ok]
        exact ⟨_, first, written₁, more', written', rfl⟩

namespace Parameters

variable {opcode : Opcode} {s : Schema} {p : Parameters}

theorem exists_encodeGroups_set {fields : List Field} {groups : List (List Value)} {n place i : Nat}
    {f : Field} {v : Value} (written : ∃ bytes, encodeGroups e opcode fields n groups = .ok bytes)
    (found : fields[i]? = some f) (new : ∀ label, ∃ bytes, v.encode e f.kind label = .ok bytes) :
    ∃ bytes, encodeGroups e opcode fields n
      (groups.modify place fun values => values.set i v) = .ok bytes := by
  induction groups generalizing n place with
  | nil => exact ⟨[], by cases place <;> rfl⟩
  | cons values groups ih =>
    simp only [encodeGroups, refuse_eq_ok, bind_eq_ok, pure_eq_ok] at written
    obtain ⟨_, length, first, written₁, more, written₂, rfl⟩ := written
    cases place with
    | zero =>
      obtain ⟨first', written'⟩ :=
        Field.exists_encodeAll_set ⟨first, written₁⟩ found (new (f.nameInGroup n))
      rw [List.modify_zero_cons]
      simp only [encodeGroups, refuse_eq_ok, bind_eq_ok, pure_eq_ok, List.length_set]
      exact ⟨_, length, first', written', more, written₂, rfl⟩
    | succ place =>
      obtain ⟨more', written'⟩ := ih ⟨more, written₂⟩
      rw [List.modify_succ_cons]
      simp only [encodeGroups, refuse_eq_ok, bind_eq_ok, pure_eq_ok]
      exact ⟨_, length, first, written₁, more', written', rfl⟩

/-- Parameters that can be written stay so with another value that can. -/
theorem exists_encode_set {slot : Slot} {f : Field} {v : Value}
    (written : ∃ bytes, p.encode e opcode s = .ok bytes) (found : s.fieldOf? slot = some f)
    (new : ∀ label, ∃ bytes, v.encode e f.kind label = .ok bytes) :
    ∃ bytes, (p.set v slot).encode e opcode s = .ok bytes := by
  simp only [encode, encodeValues, refuse_eq_ok, bind_eq_ok, pure_eq_ok] at written ⊢
  obtain ⟨_, _, ⟨length, fixed, written₁, tail, written₂, rfl⟩, text, written₃, rfl⟩ := written
  cases slot with
  | fixed i =>
    obtain ⟨fixed', written'⟩ := Field.exists_encodeAll_set ⟨fixed, written₁⟩ found (new f.name)
    exact ⟨_, _, ⟨by rwa [set, List.length_set], fixed', written', tail, written₂, rfl⟩, text,
      written₃, rfl⟩
  | tail place i =>
    obtain ⟨fields, there, inside⟩ := Option.bind_eq_some_iff.mp found
    simp only [encodeTail, there, bind_eq_ok, pure_eq_ok] at written₂
    obtain ⟨groups, written₂, _⟩ := written₂
    obtain ⟨groups', written'⟩ : ∃ bytes, encodeGroups e opcode fields 0
        (p.tail.modify place fun values => values.set i v) = .ok bytes :=
      exists_encodeGroups_set ⟨groups, written₂⟩ inside new
    have tail' : encodeTail e opcode s (p.set v (.tail place i)).tail =
        .ok (Bytes.count p.tail.length ++ groups') := by
      simp only [encodeTail, there, set, written', bind_eq_ok, pure_eq_ok, List.length_modify]
      exact ⟨_, rfl, rfl⟩
    exact ⟨_, _, ⟨length, fixed, written₁, _, tail', rfl⟩, text, written₃, rfl⟩

/-- Parameters that can be written stay so with another text block that can. -/
theorem exists_encode_mapText {block block' : TextBlock} (found : p.text = some block)
    (written : ∃ bytes, p.encode e opcode s = .ok bytes)
    (new : (∃ text, block.encode e = .ok text) → ∃ text, block'.encode e = .ok text) :
    ∃ bytes, Parameters.encode e opcode s { p with text := p.text.map fun _ => block' } =
      .ok bytes := by
  simp only [encode, bind_eq_ok, pure_eq_ok] at written ⊢
  obtain ⟨_, values, written₁, text, written₂, rfl⟩ := written
  cases carries : s.carriesText with
  | true =>
    rw [encodeText, found, carries] at written₂
    obtain ⟨text', new⟩ := new ⟨text, written₂⟩
    refine ⟨_, values, written₁, text', ?_, rfl⟩
    rwa [encodeText, found, carries]
  | false =>
    rw [encodeText, found, carries] at written₂
    cases written₂

theorem rereadAll_set (e : Encoding) (values : List Value) (i : Nat) (v : Value) :
    Value.rereadAll e (values.set i v) = (Value.rereadAll e values).set i (v.reread e) := by
  induction values generalizing i with
  | nil => rfl
  | cons w values ih =>
    cases i with
    | zero => rfl
    | succ i => exact congrArg (w.reread e :: ·) (ih i)

theorem reread_set (e : Encoding) (p : Parameters) (v : Value) (slot : Slot) :
    (p.set v slot).reread e = (p.reread e).set (v.reread e) slot := by
  cases slot with
  | fixed i => simp only [set, reread, rereadAll_set]
  | tail place i =>
    have groups : (p.tail.modify place fun values => values.set i v).map (Value.rereadAll e) =
        (p.tail.map (Value.rereadAll e)).modify place fun values => values.set i (v.reread e) := by
      apply List.ext_getElem?
      intro j
      rw [List.getElem?_map, List.getElem?_modify, List.getElem?_modify, List.getElem?_map]
      cases p.tail[j]? with
      | none => rfl
      | some values =>
        by_cases here : place = j
        · simp only [here, if_true, Option.map_eq_map, Option.map_some, rereadAll_set]
        · simp only [here, if_false, Option.map_eq_map, Option.map_some]
    simp only [set, reread, groups]

end Parameters

/-! ### One command -/

namespace Command

/-- What putting in a text makes of a command: nothing, a block with other tokens in place of a
segment or of all of them, or another text among the parameters. -/
inductive Edited (text : String) : Command → Command → Prop
  | kept (c : Command) : Edited text c c
  | segment {c : Command} {block : TextBlock} {seg : Segment} : c.text? = some block →
      seg ∈ Segment.ofTokens block.tokens →
      Edited text c (c.mapText fun _ =>
        { block with tokens := seg.replace block.tokens (plainTokens text) })
  | block {c : Command} {block : TextBlock} : c.text? = some block →
      Edited text c (c.mapText fun _ => { block with tokens := plainTokens text })
  | value {c c' : Command} {name : String} : c.setField name (.str text) = .ok c' →
      Edited text c c'

variable {c c' : Command}

/-- Writing a typed command is writing its parameters. -/
theorem exists_encode_typed {p : Parameters} (typed : c.body = .typed p) :
    (∃ bytes, c.encode e = .ok bytes) ↔ ∃ s, c.opcode.schema? = some s ∧
      ∃ bytes, p.encode e c.opcode s = .ok bytes := by
  simp only [encode, encodeBody, typed, bind_eq_ok, pure_eq_ok]
  cases c.opcode.schema? with
  | none => simp
  | some s => simp

/-- A text that was put into a slot went into one for texts. -/
theorem setField_str {name : String} (stored : c.setField name (.str text) = .ok c') :
    ∃ s p slot f, c.opcode.schema? = some s ∧ c.body = .typed p ∧ s.fieldOf? slot = some f ∧
      f.kind = .str ∧ (p.get? slot).isSome = true ∧
      c' = { c with body := .typed (p.set (.str text) slot) } := by
  rw [setField] at stored
  split at stored
  · cases stored
  · next s schema =>
    split at stored
    · cases stored
    · next slot f named =>
      obtain ⟨fits, s', p, schema', typed, held, rfl⟩ := store_eq_ok.mp stored
      cases schema.symm.trans schema'
      refine ⟨s, p, slot, f, schema, typed, Schema.fieldOf?_slotNamed? named, ?_, held, rfl⟩
      cases kind : f.kind with
      | str => rfl
      | _ =>
        rw [kind] at fits
        cases fits

/-- A command that was read is canonical. -/
theorem Spelled.isCanonical (spelled : Command.Spelled e bytes c) : c.IsCanonical := by
  rw [IsCanonical]
  cases typed : c.body with
  | raw body =>
    obtain ⟨_, _, spelled, _⟩ := spelled
    rw [BodySpelled] at spelled
    split at spelled
    · obtain ⟨_, _, same⟩ := spelled
      cases typed.symm.trans same
    · next none => exact none
  | typed p =>
    intro block found
    have carries : c.text? = some block := by
      rw [text?, params?, typed]
      exact found
    obtain ⟨_, small, spelled⟩ := spelled.block carries
    obtain ⟨canon, free, _⟩ := spelled.canonical small
    exact ⟨canon, free⟩

theorem IsCanonical.block {block : TextBlock} (canon : c.IsCanonical)
    (carries : c.text? = some block) :
    Token.AllCanonical block.tokens ∧ Token.anyComment block.tokens = false := by
  obtain ⟨opcode, indent, flags, body⟩ := c
  cases body with
  | raw body => cases carries
  | typed p => exact canon block carries

theorem IsCanonical.mapText {block' : TextBlock} (canon : c.IsCanonical)
    (new : Token.AllCanonical block'.tokens ∧ Token.anyComment block'.tokens = false) :
    (c.mapText fun _ => block').IsCanonical := by
  obtain ⟨opcode, indent, flags, body⟩ := c
  cases body with
  | raw body => exact canon
  | typed p =>
    intro block found
    obtain ⟨_, _, rfl⟩ := Option.map_eq_some_iff.mp found
    exact new

/-- A command with a new text is canonical. -/
theorem Edited.isCanonical (edited : Edited text c c') (canon : c.IsCanonical) :
    c'.IsCanonical := by
  cases edited with
  | kept => exact canon
  | segment carries member =>
    exact canon.mapText (Segment.canonical_replace member (canon.block carries))
  | block carries =>
    exact canon.mapText ⟨allCanonical_plainTokens text, anyComment_plainTokens text⟩
  | value stored =>
    obtain ⟨s, p, slot, f, _, typed, _, _, _, rfl⟩ := setField_str stored
    rw [IsCanonical, typed] at canon
    cases slot with
    | fixed i => exact canon
    | tail place i => exact canon

/-- A command that can be written stays so with another text block that can. -/
theorem exists_encode_mapText {block block' : TextBlock} (carries : c.text? = some block)
    (written : ∃ bytes, c.encode e = .ok bytes)
    (new : (∃ text, block.encode e = .ok text) → ∃ text, block'.encode e = .ok text) :
    ∃ bytes, (c.mapText fun _ => block').encode e = .ok bytes := by
  obtain ⟨opcode, indent, flags, body⟩ := c
  cases body with
  | raw body => cases carries
  | typed p =>
    obtain ⟨s, schema, written⟩ := (exists_encode_typed rfl).mp written
    exact (exists_encode_typed rfl).mpr
      ⟨s, schema, Parameters.exists_encode_mapText carries written new⟩

/-- A command with a new text can be written if the text can. -/
theorem Edited.exists_encode (edited : Edited text c c')
    (writable : ∀ ch ∈ text.toList, (e.encodeChar ch).isSome = true)
    (written : ∃ bytes, c.encode e = .ok bytes) : ∃ bytes, c'.encode e = .ok bytes := by
  -- Plain text encloses nothing, so it does not matter how deep its segment lies.
  have plain : ∀ depth ≤ maxDepth, ∃ r, Markup.encodeTokens e depth (plainTokens text) = .ok r :=
    fun _ shallow => encodeTokens_plainTokens writable shallow
  cases edited with
  | kept => exact written
  | segment carries member =>
    refine exists_encode_mapText carries written fun before => ?_
    obtain ⟨low, before⟩ := TextBlock.exists_encode.mp before
    have replaced := Segment.replaces_replace (plainTokens text) _ _ member
    exact TextBlock.exists_encode.mpr ⟨low, replaced.encodeTokens plain (Nat.zero_le _) before⟩
  | block carries =>
    refine exists_encode_mapText carries written fun before => ?_
    obtain ⟨low, _⟩ := TextBlock.exists_encode.mp before
    exact TextBlock.exists_encode.mpr ⟨low, plain 0 (Nat.zero_le _)⟩
  | value stored =>
    obtain ⟨s, p, slot, f, schema, typed, there, kind, _, rfl⟩ := setField_str stored
    obtain ⟨s', schema', written⟩ := (exists_encode_typed typed).mp written
    cases schema.symm.trans schema'
    refine (exists_encode_typed rfl).mpr
      ⟨s, schema, Parameters.exists_encode_set written there fun label => ?_⟩
    obtain ⟨raw, encoded⟩ := (e.hinges_write text).exists_ok_iff.mpr writable
    rw [kind, Value.encode, encoded]
    exact ⟨_, rfl⟩

theorem text?_reread (e : Encoding) (c : Command) :
    (c.reread e).text? = c.text?.map (TextBlock.reread e) := by
  obtain ⟨opcode, indent, flags, body⟩ := c
  cases body with
  | raw body => rfl
  | typed p => rfl

theorem reread_mapText (e : Encoding) (c : Command) (block : TextBlock) :
    (c.mapText fun _ => block).reread e = (c.reread e).mapText fun _ => block.reread e := by
  obtain ⟨opcode, indent, flags, body⟩ := c
  cases body with
  | raw body => rfl
  | typed p => simp only [reread, mapText, mapParams, Parameters.reread, Option.map_map,
      Function.comp_def]

/-- A command with a new text is read back as it is if the text is. -/
theorem Edited.reread_eq (edited : Edited text c c') (canon : c.IsCanonical)
    (kept : c.reread e = c) (same : e.reread text = text) : c'.reread e = c' := by
  cases edited with
  | kept => exact kept
  | @segment block seg carries member =>
    have tokens := canon.block carries
    -- The tokens around the segment were read, so they are read back as they are.
    have before : ∀ t ∈ block.tokens, t.reread e = t := by
      have whole := text?_reread e c
      rw [kept, carries, Option.map_some, Option.some_inj, TextBlock.reread_of_canonical tokens]
        at whole
      exact Token.rereadAll_eq_self_iff.mp (congrArg TextBlock.tokens whole).symm
    have replaced := Segment.replaces_replace (plainTokens text) _ _ member
    have after := replaced.reread_eq (reread_plainTokens same) before
    rw [reread_mapText, kept,
      TextBlock.reread_of_canonical (Segment.canonical_replace member tokens),
      Token.rereadAll_eq_self_iff.mpr after]
  | block carries =>
    rw [reread_mapText, kept, TextBlock.reread_of_canonical
      ⟨allCanonical_plainTokens text, anyComment_plainTokens text⟩,
      Token.rereadAll_eq_self_iff.mpr (reread_plainTokens same)]
  | value stored =>
    obtain ⟨s, p, slot, f, _, typed, _, _, _, rfl⟩ := setField_str stored
    have params : p.reread e = p := by
      rw [reread, mapParams, typed] at kept
      have bodies := congrArg Command.body kept
      rw [typed] at bodies
      exact Body.typed.inj bodies
    rw [reread, mapParams]
    dsimp only
    rw [Parameters.reread_set, params, Value.reread, same]

/-- Commands can be written when each of them can. -/
theorem exists_encodeAll {commands : List Command} :
    (∃ bytes, encodeAll e commands = .ok bytes) ↔
      ∀ c ∈ commands, ∃ bytes, c.encode e = .ok bytes := by
  induction commands with
  | nil => exact ⟨by rintro _ _ ⟨⟩, fun _ => ⟨_, rfl⟩⟩
  | cons c commands ih =>
    rw [List.forall_mem_cons, ← ih]
    simp only [encodeAll, bind_eq_ok, pure_eq_ok]
    constructor
    · rintro ⟨_, first, written, more, written', _⟩
      exact ⟨⟨first, written⟩, more, written'⟩
    · rintro ⟨⟨first, written⟩, more, written'⟩
      exact ⟨_, first, written, more, written', rfl⟩

end Command

/-! ### Charts -/

theorem Encoding.check_eq_ok {done : Unit} :
    e.check text = .ok done ↔ ∀ ch ∈ text.toList, (e.encodeChar ch).isSome = true := by
  rw [check]
  cases found : e.firstUnencodable text with
  | none =>
    rw [firstUnencodable, List.find?_eq_none] at found
    simpa [Option.isSome_iff_ne_none] using found
  | some ch =>
    have missing := List.find?_some found
    have member := List.mem_of_find?_eq_some found
    constructor
    · rintro ⟨⟩
    · intro all
      rw [Option.isNone_iff_eq_none] at missing
      have there := all ch member
      rw [missing] at there
      cases there

/-- Whether a body can be stored is not for the body to say. -/
theorem Header.Stores.exists_of {h : Header} {plain stored : List UInt8}
    (stores : h.Stores plain stored) (plain' : List UInt8) :
    ∃ stored', h.Stores plain' stored' := by
  simp only [Stores] at stores ⊢
  generalize h.scramble = scramble at stores ⊢
  cases scramble with
  | none => exact ⟨plain', rfl⟩
  | some params =>
    simp only [Shuffle.scramble, Shuffle.plan, bind_eq_ok, refuse_eq_ok, pure_eq_ok] at stores ⊢
    obtain ⟨_, ⟨positive, _⟩, _⟩ := stores
    exact ⟨_, _, ⟨positive, rfl⟩, rfl⟩

namespace Chart

/-- What putting in a text makes of a chart: it changes texts of commands. -/
structure Edited (text : String) (c c' : Chart) : Prop where
  frame : c'.frame = c.frame
  commands : ∀ command' ∈ c'.commands, ∃ command ∈ c.commands, Command.Edited text command command'

variable {c c' : Chart} {layout : Layout}

/-- A command with a new block at a line is an old one, or the one of that line. -/
theorem mem_setBlock {line : Nat} {block : TextBlock} {command' : Command}
    (member : command' ∈ (c.setBlock line block).commands) :
    command' ∈ c.commands ∨ ∃ command, c.commands[line]? = some command ∧
      command' = command.mapText fun _ => block := by
  obtain ⟨i, here⟩ := List.getElem?_of_mem member
  rw [setBlock, List.getElem?_modify, Option.map_eq_map, Option.map_eq_some_iff] at here
  obtain ⟨other, there, rfl⟩ := here
  by_cases same : line = i
  · subst same
    rw [if_pos rfl]
    exact .inr ⟨other, there, rfl⟩
  · rw [if_neg same]
    exact .inl (List.mem_of_getElem? there)

theorem edited_setBlock {line : Nat} {command : Command} {block : TextBlock}
    (found : c.commands[line]? = some command)
    (edited : Command.Edited text command (command.mapText fun _ => block)) :
    Edited text c (c.setBlock line block) := by
  refine ⟨frame_setBlock c line block, fun command' member => ?_⟩
  obtain old | ⟨other, there, rfl⟩ := mem_setBlock member
  · exact ⟨command', old, .kept command'⟩
  · cases found.symm.trans there
    exact ⟨command, List.mem_of_getElem? found, edited⟩

/-- The commands of a chart that can be written can be written. -/
theorem exists_encode_of_toBytes (written : c.toBytes = .ok bytes) :
    ∀ command ∈ c.commands, ∃ bytes, command.encode c.encoding = .ok bytes := by
  obtain ⟨_, _, body, _⟩ := toBytes_eq_ok.mp written
  simp only [encodeBody, Command.encodeStream, bind_eq_ok, pure_eq_ok] at body
  obtain ⟨_, ⟨stream, encoded, _⟩, _⟩ := body
  exact Command.exists_encodeAll.mp ⟨stream, encoded⟩

/-- A chart with the frame of one that can be written can be written if its commands can: header
and labels are what they were. -/
theorem exists_toBytes_of_frame (written : c.toBytes = .ok bytes) (same : c'.frame = c.frame)
    (commands : ∀ command ∈ c'.commands, ∃ bytes, command.encode c.encoding = .ok bytes) :
    ∃ bytes', c'.toBytes = .ok bytes' := by
  have header : c'.header = c.header := congrArg (fun chart => chart.header) same
  have labels : c'.labels = c.labels := congrArg (fun chart => chart.labels) same
  have encoding : c'.encoding = c.encoding := encoding_of_frame same
  have length : c'.length = c.length := by
    have lengths := congrArg (fun chart => chart.commands.length) same
    simpa only [Chart.frame, Chart.length, List.length_map] using lengths
  obtain ⟨_, _, body, stores, _⟩ := toBytes_eq_ok.mp written
  simp only [encodeBody, Command.encodeStream, bind_eq_ok, pure_eq_ok] at body
  obtain ⟨_, _, table, labelled, _⟩ := body
  obtain ⟨stream', encoded⟩ := Command.exists_encodeAll.mpr commands
  obtain ⟨stored', stores'⟩ := stores.exists_of
    (Bytes.count c'.commands.length ++ Bytes.counted stream' ++ table)
  rw [← header] at stores'
  refine ⟨_, toBytes_eq_ok.mpr ⟨_, stored', ?_, stores', rfl⟩⟩
  simp only [encodeBody, Command.encodeStream, bind_eq_ok, pure_eq_ok, encoding, length, labels]
  exact ⟨_, ⟨stream', encoded, rfl⟩, table, labelled, rfl⟩

/-- A chart that can be written can be written with a new text that can. -/
theorem Edited.exists_toBytes_of_written (edited : Edited text c c')
    (written : c.toBytes = .ok bytes)
    (writable : ∀ ch ∈ text.toList, (c.encoding.encodeChar ch).isSome = true) :
    ∃ bytes', c'.toBytes = .ok bytes' := by
  refine exists_toBytes_of_frame written edited.frame fun command' member' => ?_
  obtain ⟨command, member, changed⟩ := edited.commands command' member'
  exact changed.exists_encode writable (exists_encode_of_toBytes written command member)

/-- A chart that was read can be written with a new text that can. -/
theorem Edited.exists_toBytes (edited : Edited text c c') (image : Image e bytes c layout)
    (writable : ∀ ch ∈ text.toList, (e.encodeChar ch).isSome = true) :
    ∃ bytes', c'.toBytes = .ok bytes' := by
  rw [← image.encoding] at writable
  exact edited.exists_toBytes_of_written image.toBytes_eq writable

/-- A chart that was read is read back as it is, with a new text that is. -/
theorem Edited.reread_eq (edited : Edited text c c') (image : Image e bytes c layout)
    (same : e.reread text = text) : c'.reread = c' := by
  have header : c'.header = c.header := congrArg (fun chart => chart.header) edited.frame
  have labels : c'.labels = c.labels := congrArg (fun chart => chart.labels) edited.frame
  have encoding : c'.encoding = e := (encoding_of_frame edited.frame).trans image.encoding
  have commands : c'.commands.map (Command.reread e) = c'.commands := by
    refine (List.map_congr_left fun command' member' => ?_).trans (List.map_id _)
    obtain ⟨command, member, edited⟩ := edited.commands command' member'
    obtain ⟨_, spelled⟩ := image.spelled member
    exact edited.reread_eq spelled.isCanonical spelled.reread_eq same
  have flags : Header.markScrambled c'.header.flags c'.header.scramble.isSome =
      c'.header.flags := by
    -- The flags were read together with the mark of a shuffled body.
    obtain ⟨_, _, _, _, _, ⟨_, _, scrambled, _⟩, _⟩ := image
    rw [header]
    exact Header.markScrambled_eq_self.mpr scrambled
  have labels' : c'.labels.map (Label.reread e) = c'.labels := by
    rw [labels, image.labels_reread]
  rw [reread, marked, encoding, commands, labels', flags, ← encoding]

/-! ### Texts and choices -/

theorem blockTexts_reread {block : TextBlock}
    (canon : Token.AllCanonical block.tokens ∧ Token.anyComment block.tokens = false) :
    blockTexts (block.reread e) =
      (blockTexts block).map fun (index, text) => (index, e.reread text) := by
  rw [TextBlock.reread_of_canonical canon, blockTexts, Segment.ofTokens_rereadAll, blockTexts,
    List.map_filterMap]
  simp only [Segment.text?_rereadAll, Option.map_map]
  rfl

/-- The texts of canonical blocks are read back in place. -/
theorem texts_reread (canon : ∀ command ∈ c.commands, command.IsCanonical) (name : String) :
    c.reread.texts name = (c.texts name).map fun (id, text) => (id, c.encoding.reread text) := by
  rw [texts, lines, reread, List.zipIdx_map, List.flatMap_map, texts, lines, List.map_flatMap]
  apply List.flatMap_congr
  rintro ⟨command, line⟩ inside
  have member := List.fst_mem_of_mem_zipIdx inside
  simp only [Prod.map_apply, id, Command.text?_reread]
  cases carries : command.text? with
  | none => rfl
  | some block =>
    have tokens := (canon command member).block carries
    simp only [Option.map_some, blockTexts_reread tokens, List.map_map]
    rfl

theorem menuChoices_reread (e : Encoding) (command : Command) (line : Nat) :
    menuChoices (command.reread e) line = (menuChoices command line).map fun choice =>
      { choice with text := e.reread choice.text } := by
  have text : ∀ values : List Value, ((Value.rereadAll e values)[0]?.bind Value.asStr?).getD "" =
      e.reread ((values[0]?.bind Value.asStr?).getD "") := by
    intro values
    cases values with
    | nil => rfl
    | cons v values => cases v <;> rfl
  have jump : ∀ values : List Value, ((Value.rereadAll e values)[1]?.bind Value.asInt?).getD 0 =
      (values[1]?.bind Value.asInt?).getD 0 := by
    rintro (_ | ⟨_, _ | ⟨v, _⟩⟩)
    · rfl
    · rfl
    · cases v <;> rfl
  obtain ⟨opcode, indent, flags, body⟩ := command
  cases body with
  | raw body => rfl
  | typed p =>
    by_cases menu : opcode = .menu
    · simp only [menuChoices, Command.params?, Command.reread, Command.mapParams, menu, if_true,
        Parameters.reread, List.zipIdx_map, List.map_map, Function.comp_def, Prod.map_fst,
        Prod.map_snd, id_eq, text, jump]
    · simp only [menuChoices, Command.reread, Command.mapParams, menu, if_false]
      rfl

/-- The choices are read back in place. -/
theorem choices_reread (c : Chart) : c.reread.choices = c.choices.map fun choice =>
    { choice with text := c.encoding.reread choice.text } := by
  rw [choices, lines, reread, List.zipIdx_map, List.flatMap_map, choices, lines, List.map_flatMap]
  congr 1
  funext x
  exact menuChoices_reread c.encoding x.1 x.2

end Chart

/-! ### New texts -/

/-- What a new text is put into: a segment, a whole block or a menu choice. -/
inductive TextTarget
  | segment (id : TextId)
  | block (line : Nat)
  | choice (line index : Nat)
  deriving DecidableEq, Repr

namespace TextTarget

/-- Puts a new text into a chart. -/
def insert (c : Chart) (text : String) : TextTarget → Except Error Chart
  | segment id => c.replaceText id text
  | block line => c.replaceBlockPlain line text
  | choice line index => c.replaceChoice line index text

variable {target : TextTarget} {c c' : Chart}

/-- A text that was put in can be written, and it changes texts of commands only. -/
theorem edited (inserted : target.insert c text = .ok c') :
    (∀ ch ∈ text.toList, (c.encoding.encodeChar ch).isSome = true) ∧ Chart.Edited text c c' := by
  cases target with
  | segment id =>
    obtain ⟨checked, block, seg, there, found, rfl | rfl⟩ := Chart.replaceText_cases inserted
    · exact ⟨Encoding.check_eq_ok.mp checked, rfl,
        fun command member => ⟨command, member, .kept command⟩⟩
    · obtain ⟨command, here, carries⟩ := Chart.block_eq_ok.mp there
      exact ⟨Encoding.check_eq_ok.mp checked,
        Chart.edited_setBlock here (.segment carries (List.mem_of_getElem? found))⟩
  | block line =>
    simp only [insert, Chart.replaceBlockPlain, Chart.checkText, bind_eq_ok, mapError_eq_ok,
      pure_eq_ok, Chart.block_eq_ok] at inserted
    obtain ⟨_, checked, block, ⟨command, found, carries⟩, rfl⟩ := inserted
    exact ⟨Encoding.check_eq_ok.mp checked, Chart.edited_setBlock found (.block carries)⟩
  | choice line index =>
    have frame : c'.frame = c.frame := Chart.frame_replaceChoice inserted
    simp only [insert, Chart.replaceChoice, Chart.checkText, bind_eq_ok, mapError_eq_ok,
      refuse_eq_ok, pure_eq_ok, Chart.command_eq_ok] at inserted
    obtain ⟨_, checked, command, found, _, command', stored, rfl⟩ := inserted
    refine ⟨Encoding.check_eq_ok.mp checked, frame, fun other member => ?_⟩
    rcases List.mem_or_eq_of_mem_set member with old | rfl
    · exact ⟨other, old, .kept other⟩
    · exact ⟨command, List.mem_of_getElem? found, .value stored⟩

/-- A chart that was read can be written with a new text, and what is read back differs only by
look-alikes: every text and choice is read back in place, and the whole chart is read back as it is
unless the new text has a yen sign, an overline or a minus sign and goes into CP932. -/
theorem saved (read : Chart.ofBytes e bytes = .ok c) (inserted : target.insert c text = .ok c') :
    ∃ bytes', c'.toBytes = .ok bytes' ∧ (bytes'.length < 2 ^ 32 →
      ∃ c'', Chart.ofBytes e bytes' = .ok c'' ∧
        (∀ name, c''.texts name = (c'.texts name).map fun (id, text) => (id, e.reread text)) ∧
        (c''.choices = c'.choices.map fun choice =>
          { choice with text := e.reread choice.text }) ∧
        ((∀ ch ∈ text.toList, e = .cp932 → ch ≠ '¥' ∧ ch ≠ '‾' ∧ ch ≠ '−') → c'' = c')) := by
  obtain ⟨layout, image⟩ := Chart.ofBytes_eq_ok.mp read
  obtain ⟨writable, edited⟩ := edited inserted
  rw [image.encoding] at writable
  have encoding : c'.encoding = e :=
    (Chart.encoding_of_frame edited.frame).trans image.encoding
  obtain ⟨bytes', written⟩ := edited.exists_toBytes image writable
  refine ⟨bytes', written, fun small => ⟨c'.reread, ?_, fun name => ?_, ?_, fun plain => ?_⟩⟩
  · have image' := Chart.image_reread (image.sound.of_frame edited.frame) written small
    rw [encoding] at image'
    exact Chart.ofBytes_eq_ok.mpr image'
  · rw [Chart.texts_reread, encoding]
    intro command' member'
    obtain ⟨command, member, changed⟩ := edited.commands command' member'
    obtain ⟨_, spelled⟩ := image.spelled member
    exact changed.isCanonical spelled.isCanonical
  · rw [Chart.choices_reread, encoding]
  · exact edited.reread_eq image (Encoding.reread_of_plain plain)

/-- The sample with another text for its choice. -/
def sampleRenamed : Chart :=
  Chart.sample.marked.setCommand 1
    ⟨.menu, 0, 0, .typed ⟨[.str "", .flag true], [[.str "Run", .int 1]], none⟩⟩

set_option maxRecDepth 10000 in
/-- A choice of the sample gets another text, and is saved with it. -/
theorem saved_sample : Chart.ofBytes .cp932 Chart.sampleBytes = .ok Chart.sample.marked ∧
    (choice 1 0).insert Chart.sample.marked "Run" = .ok sampleRenamed ∧
    ∃ bytes', sampleRenamed.toBytes = .ok bytes' ∧
      Chart.ofBytes .cp932 bytes' = .ok sampleRenamed := by
  have read : Chart.ofBytes .cp932 Chart.sampleBytes = .ok Chart.sample.marked := by
    rfl
  have inserted : (choice 1 0).insert Chart.sample.marked "Run" = .ok sampleRenamed := by
    rfl
  have length : sampleRenamed.toBytes.map List.length = .ok 144 := by
    rfl
  obtain ⟨bytes', written, back⟩ := saved read inserted
  rw [written] at length
  have few : bytes'.length = 144 := Except.ok.inj length
  have letters : ("Run".toList.all fun ch => ch ≠ '¥' ∧ ch ≠ '‾' ∧ ch ≠ '−') = true := by
    decide
  obtain ⟨c'', read', _, _, same⟩ := back (by omega)
  refine ⟨read, inserted, bytes', written, ?_⟩
  rw [read', same]
  intro ch member _
  exact of_decide_eq_true (List.all_eq_true.mp letters ch member)

/-- The sample with a yen sign in its first segment. -/
def samplePriced : Chart :=
  Chart.sample.marked.setBlock 0 ⟨104, [.text "¥", .lineBreak,
    .span ⟨"A", [("ID", "-3"), ("NAME", "x")]⟩ [.text "ｱ", .mark ⟨"PS", []⟩]]⟩

/-- The bytes of the sample with a yen sign. -/
def samplePricedBytes : List UInt8 := [
  117, 0, 0, 0, 7, 7, 0, 0, 0, 5, 0, 0, 0, 49, 0, 0, 0, 3, 0, 0, 0, 0, 0, 0, 3, 0, 0, 48, 52, 3, 0,
  0, 0, 1, 84, 112, 87, 111, 114, 100, 49, 0, 1, 2, 3, 1, 0, 0, 253, 255, 255, 255, 1, 0, 0, 0,
  120, 2, 0, 0, 0, 1, 111, 1, 0, 0, 0, 9, 0, 0, 20, 3, 0, 0, 0, 1, 1, 92, 3, 0, 2, 17, 3, 0, 0, 0,
  19, 0, 0, 0, 3, 0, 0, 0, 101, 0, 0, 0, 66, 111, 120, 1, 0, 1, 0, 3, 0, 0, 0, 101, 110, 0, 0, 0,
  0, 1, 1, 0, 0, 0, 2, 0, 0, 0, 71, 1, 177, 3, 2, 25, 0, 0, 100, 3, 0, 0, 0]

set_option maxRecDepth 10000 in
/-- A yen sign is let in, but a backslash is read back. -/
theorem saved_yen : Chart.ofBytes .cp932 Chart.sampleBytes = .ok Chart.sample.marked ∧
    (segment ⟨"", 0, 0⟩).insert Chart.sample.marked "¥" = .ok samplePriced ∧
    samplePriced.toBytes = .ok samplePricedBytes ∧
    ∃ c'', Chart.ofBytes .cp932 samplePricedBytes = .ok c'' ∧
      samplePriced.texts "" = [(⟨"", 0, 0⟩, "¥"), (⟨"", 0, 1⟩, "ｱ")] ∧
      c''.texts "" = [(⟨"", 0, 0⟩, "\\"), (⟨"", 0, 1⟩, "ｱ")] := by
  refine ⟨by rfl, by rfl, by rfl, Chart.sample.marked.setBlock 0 ⟨104, [.text "\\", .lineBreak,
    .span ⟨"A", [("ID", "-3"), ("NAME", "x")]⟩ [.text "ｱ", .mark ⟨"PS", []⟩]]⟩, by rfl, ?_, ?_⟩
  · decide
  · decide

end TextTarget

end NovelChart
