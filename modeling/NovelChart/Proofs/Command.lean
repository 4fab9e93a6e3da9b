import NovelChart.Chart.Codec
import NovelChart.Proofs.Block
import NovelChart.Proofs.Value

/-!
# The byte format of records

A record is an opcode, an indent, flags and a counted body. A body under a schema is made up of the
values that it lists, the counted groups of its tail and its text block; any other body is taken as
it stands. Records of a stream lie side by side, so their lengths determine their spans.

## Main definitions

* `Field.Spelled`, `Parameters.Spelled`, `Command.Spelled`: the formats of values under fields, of
  typed bodies, and of records
* `Command.Records`: records side by side, with the spans that they take

## Main results

* `Command.many_decode_eq_ok`: reading records accepts exactly the format, with these spans
* `Command.Spelled.encode_eq`: a command is written with the bytes that stand for it
* `Command.spelled_of_encode`: what is written for a canonical command stands for it
-/

namespace NovelChart

variable {e : Encoding} {bytes : List UInt8}

/-! ### Values under fields -/

namespace Field

/-- The bytes stand for one value for each field. -/
inductive Spelled (e : Encoding) : List Field → Format (List Value)
  | nil : Spelled e [] [] []
  | cons {f : Field} {fs : List Field} {bytes more : List UInt8} {v : Value} {vs : List Value} :
      Value.Spelled e f.kind bytes v → Spelled e fs more vs →
      Spelled e (f :: fs) (bytes ++ more) (v :: vs)

variable {fields : List Field} {values : List Value}

theorem Spelled.length_eq (spelled : Spelled e fields bytes values) :
    values.length = fields.length := by
  induction spelled with
  | nil => rfl
  | cons _ _ ih => rw [List.length_cons, List.length_cons, ih]

theorem Spelled.minSizes_le (spelled : Spelled e fields bytes values) :
    minSizes fields ≤ bytes.length := by
  induction spelled with
  | nil => exact Nat.le_refl 0
  | @cons f fs bytes more _ _ first _ ih =>
    have least := first.minSize_le
    change f.kind.minSize + minSizes fs ≤ (bytes ++ more).length
    rw [List.length_append]
    omega

theorem reads_decodeAll (r : Reading) (fields : List Field) :
    Reads (decodeAll r fields) (Spelled r.encoding fields) := by
  induction fields with
  | nil =>
    intro c values c'
    simp only [decodeAll, Except.ok.injEq, Prod.mk.injEq]
    constructor
    · rintro ⟨rfl, rfl⟩
      exact ⟨[], .nil, Cursor.passes_nil.mpr rfl⟩
    · intro spelled
      obtain ⟨_, ⟨⟩, passes⟩ := spelled
      exact ⟨rfl, (Cursor.passes_nil.mp passes).symm⟩
  | cons f fs ih =>
    intro c values c'
    simp only [decodeAll, bind_eq_ok, pure_eq_ok, Prod.exists, Value.reads_decode _ _ _ _ _,
      ih _ _ _, Prod.mk.injEq]
    constructor
    · intro read
      obtain ⟨v, _, ⟨first, spelled, passes⟩, vs, _, ⟨more, rest, passes'⟩, rfl, rfl⟩ := read
      exact ⟨_, .cons spelled rest, passes.append passes'⟩
    · intro spelled
      obtain ⟨_, spelled, passes⟩ := spelled
      cases spelled with
      | cons first rest =>
        obtain ⟨c₁, passes₁, passes₂⟩ := Cursor.passes_append.mp passes
        exact ⟨_, c₁, ⟨_, first, passes₁⟩, _, c', ⟨_, rest, passes₂⟩, rfl, rfl⟩

theorem Spelled.encode_eq (spelled : Spelled e fields bytes values) (label : Field → String) :
    encodeAll e label fields values = .ok bytes := by
  induction spelled with
  | nil => rfl
  | cons first _ ih =>
    simp only [encodeAll, first.encode_eq, ih, bind, Except.bind, pure, Except.pure]

theorem spelled_of_encodeAll {label : Field → String} (length : values.length = fields.length)
    (written : encodeAll e label fields values = .ok bytes)
    (survive : ∀ v ∈ values, v.Survives e) (small : bytes.length < 2 ^ 32) :
    Spelled e fields bytes values := by
  induction fields generalizing values bytes with
  | nil =>
    obtain rfl := List.length_eq_zero_iff.mp length
    cases written
    exact .nil
  | cons f fs ih =>
    cases values with
    | nil => cases length
    | cons v vs =>
      simp only [encodeAll, bind_eq_ok, pure_eq_ok] at written
      obtain ⟨first, written₁, more, written₂, rfl⟩ := written
      rw [List.length_append] at small
      refine .cons ?_ ?_
      · exact Value.spelled_of_encode written₁ (survive v List.mem_cons_self) (by omega)
      · exact ih (Nat.succ.inj length) written₂
          (fun v member => survive v (List.mem_cons_of_mem _ member)) (by omega)

end Field

/-! ### Typed bodies -/

namespace Parameters

/-- The bytes stand for the groups of a variable tail, if there is one. -/
def TailSpelled (e : Encoding) : Option (List Field) → Format (List (List Value))
  | some fields, bytes, groups => groups.length < 2 ^ 31 ∧
      ∃ body, Format.Many (Field.Spelled e fields) body groups ∧
        bytes = Bytes.count groups.length ++ body
  | none, bytes, groups => bytes = [] ∧ groups = []

/-- The bytes stand for a text block, if there is one. -/
def TextSpelled (e : Encoding) : Bool → Format (Option TextBlock)
  | true, bytes, text => ∃ block, TextBlock.Spelled e bytes block ∧ text = some block
  | false, bytes, text => bytes = [] ∧ text = none

/-- The bytes stand for the parameters ahead of the text block. -/
def ValuesSpelled (e : Encoding) (s : Schema) : Format Parameters := fun bytes p =>
  ∃ fixed tail, Field.Spelled e s.fields fixed p.fixed ∧ TailSpelled e s.tail tail p.tail ∧
    bytes = fixed ++ tail

/-- The bytes stand for a typed body. -/
def Spelled (e : Encoding) (s : Schema) : Format Parameters := fun bytes p =>
  ∃ values text, ValuesSpelled e s values p ∧ TextSpelled e s.carriesText text p.text ∧
    bytes = values ++ text

theorem reads_tail (r : Reading) (fields : List Field) :
    Reads (decodeTail r fields) (TailSpelled r.encoding (some fields)) := by
  have groups := (Field.reads_decodeAll r fields).many
  intro c tail c'
  simp only [decodeTail, bind_eq_ok, Prod.exists, Reads.i32 _ _ _, refuse_eq_ok, groups _ _ _ _,
    TailSpelled]
  constructor
  · intro read
    obtain ⟨n, c₁, ⟨_, rfl, passes⟩, accepted, body, ⟨length, many⟩, passes'⟩ := read
    -- A negative count is refused, so the count is below half the range of a word.
    have nonneg : ¬n < 0 := fun negative => accepted (by simp [negative])
    have below := Int32.toInt_lt n
    refine ⟨_, ⟨by omega, body, many, rfl⟩, ?_⟩
    rw [length, ← Bytes.i32_eq_count nonneg]
    exact passes.append passes'
  · intro spelled
    obtain ⟨_, ⟨few, body, many, rfl⟩, passes⟩ := spelled
    obtain ⟨c₁, passes₁, passes₂⟩ := Cursor.passes_append.mp passes
    have value : (Int32.ofNat tail.length).toInt = tail.length := Int32.toInt_ofNat_of_lt few
    have room : tail.length * Field.minSizes fields ≤ c₁.remaining := by
      have least := many.length_le fun _ _ => Field.Spelled.minSizes_le
      rw [passes₂.remaining]
      omega
    refine ⟨Int32.ofNat tail.length, c₁, ⟨_, rfl, passes₁⟩, ?_, body, ⟨?_, many⟩, passes₂⟩
    · rw [value, Int.toNat_natCast, Cursor.admits_of_le room]
      simp [Int32.lt_iff_toInt_lt, value]
    · rw [value, Int.toNat_natCast]

/-- Reads a variable tail, if there is one. -/
def readTail (r : Reading) : Option (List Field) → Cursor →
    Except FormatError (Step (List (List Value)))
  | some fields, c => decodeTail r fields c
  | none, c => pure ([], c)

/-- Reads a text block, if there is one. -/
def readText (r : Reading) : Bool → Cursor → Except FormatError (Step (Option TextBlock))
  | true, c => do
    let (block, c) ← TextBlock.decode r c
    return (some block, c)
  | false, c => pure (none, c)

/-- Reading a typed body in its three parts. -/
theorem decode_eq (r : Reading) (s : Schema) (c : Cursor) : decode r s c = do
    let (fixed, c) ← Field.decodeAll r s.fields c
    let (tail, c) ← readTail r s.tail c
    let (text, c) ← readText r s.carriesText c
    c.finish
    return { fixed, tail, text } := by
  obtain ⟨fields, tail, carriesText⟩ := s
  cases tail with
  | none => cases carriesText <;> simp [decode, readTail, readText]
  | some tail => cases carriesText <;> simp [decode, readTail, readText]

theorem reads_readTail (r : Reading) (tail : Option (List Field)) :
    Reads (readTail r tail) (TailSpelled r.encoding tail) := by
  cases tail with
  | none => exact Reads.nothing []
  | some fields => exact reads_tail r fields

theorem reads_readText (r : Reading) (carriesText : Bool) :
    Reads (readText r carriesText) (TextSpelled r.encoding carriesText) := by
  cases carriesText with
  | false => exact Reads.nothing none
  | true => exact (TextBlock.reads_decode r).map some

/-- A typed body is read exactly when all that is left stands for it. -/
theorem decode_eq_ok {r : Reading} {s : Schema} {c : Cursor} {p : Parameters} :
    decode r s c = .ok p ↔ Spelled r.encoding s c.rest p := by
  simp only [decode_eq, bind_eq_ok, pure_eq_ok, Prod.exists, Field.reads_decodeAll _ _ _ _ _,
    reads_readTail _ _ _ _ _, reads_readText _ _ _ _ _]
  constructor
  · intro read
    obtain ⟨_, c₁, ⟨fixed, spelled₁, passes₁⟩, _, c₂, ⟨tail, spelled₂, passes₂⟩, _, c₃, ⟨text,
      spelled₃, passes₃⟩, _, finished, rfl⟩ := read
    refine ⟨_, _, ⟨_, _, spelled₁, spelled₂, rfl⟩, spelled₃, ?_⟩
    -- Nothing is left over, so the three parts make up all bytes.
    have all := ((passes₁.append passes₂).append passes₃).1
    rwa [Cursor.finish_eq_ok.mp finished, List.append_nil] at all
  · rintro ⟨_, text, ⟨fixed, tail, spelled₁, spelled₂, rfl⟩, spelled₃, rest⟩
    have passes := c.passes_rest
    rw [rest] at passes
    obtain ⟨c₂, passes, passes₃⟩ := Cursor.passes_append.mp passes
    obtain ⟨c₁, passes₁, passes₂⟩ := Cursor.passes_append.mp passes
    exact ⟨p.fixed, c₁, ⟨fixed, spelled₁, passes₁⟩, p.tail, c₂, ⟨tail, spelled₂, passes₂⟩, p.text,
      _, ⟨text, spelled₃, passes₃⟩, (), Cursor.finish_eq_ok.mpr rfl, rfl⟩

variable {opcode : Opcode} {s : Schema} {p : Parameters}

theorem encodeGroups_of_many {fields : List Field} {groups : List (List Value)}
    (many : Format.Many (Field.Spelled e fields) bytes groups) (group : Nat) :
    encodeGroups e opcode fields group groups = .ok bytes := by
  induction many generalizing group with
  | nil => rfl
  | cons first _ ih =>
    simp only [encodeGroups, first.length_eq, first.encode_eq, ih, bind, Except.bind, pure,
      Except.pure, ne_eq, not_true_eq_false, if_false]

theorem TailSpelled.encode_eq {groups : List (List Value)}
    (spelled : TailSpelled e s.tail bytes groups) : encodeTail e opcode s groups = .ok bytes := by
  rw [encodeTail]
  split
  · next fields eq =>
    rw [eq] at spelled
    obtain ⟨_, body, many, rfl⟩ := spelled
    simp only [encodeGroups_of_many many, bind, Except.bind, pure, Except.pure]
  · next eq =>
    rw [eq] at spelled
    obtain ⟨rfl, rfl⟩ := spelled
    rfl

/-- The values ahead of the text block are written with the bytes that stand for them. -/
theorem ValuesSpelled.encode_eq (spelled : ValuesSpelled e s bytes p) :
    p.encodeValues e opcode s = .ok bytes := by
  obtain ⟨fixed, tail, spelled₁, spelled₂, rfl⟩ := spelled
  simp only [encodeValues, spelled₁.length_eq, spelled₁.encode_eq, spelled₂.encode_eq, bind,
    Except.bind, pure, Except.pure, ne_eq, not_true_eq_false, if_false]

theorem TextSpelled.encode_eq (spelled : TextSpelled e s.carriesText bytes p.text) :
    p.encodeText e opcode s = .ok bytes := by
  cases carries : s.carriesText with
  | true =>
    rw [carries] at spelled
    obtain ⟨block, spelled, eq⟩ := spelled
    rw [encodeText, carries, eq]
    exact spelled.encode_eq
  | false =>
    rw [carries] at spelled
    obtain ⟨rfl, eq⟩ := spelled
    rw [encodeText, carries, eq]

/-- A typed body is written with the bytes that stand for it. -/
theorem Spelled.encode_eq (spelled : Spelled e s bytes p) : p.encode e opcode s = .ok bytes := by
  obtain ⟨values, text, spelled₁, spelled₂, rfl⟩ := spelled
  simp only [encode, spelled₁.encode_eq, spelled₂.encode_eq, bind, Except.bind, pure, Except.pure]

/-- Every string among the parameters survives the encoding. -/
structure Survives (e : Encoding) (p : Parameters) : Prop where
  fixed : ∀ v ∈ p.fixed, v.Survives e
  tail : ∀ group ∈ p.tail, ∀ v ∈ group, v.Survives e
  text : ∀ block, p.text = some block → Token.AllSurvive e block.tokens

/-- The text block, if there is one, is canonical and free of comments. -/
def IsCanonical (p : Parameters) : Prop :=
  ∀ block, p.text = some block →
    Token.AllCanonical block.tokens ∧ Token.anyComment block.tokens = false

theorem many_of_encodeGroups {fields : List Field} {groups : List (List Value)} {group : Nat}
    (written : encodeGroups e opcode fields group groups = .ok bytes)
    (survive : ∀ group ∈ groups, ∀ v ∈ group, v.Survives e) (small : bytes.length < 2 ^ 32) :
    Format.Many (Field.Spelled e fields) bytes groups := by
  induction groups generalizing group bytes with
  | nil =>
    cases written
    exact .nil
  | cons values groups ih =>
    simp only [encodeGroups, refuse_eq_ok, bind_eq_ok, pure_eq_ok, ne_eq, Decidable.not_not]
      at written
    obtain ⟨length, first, written₁, more, written₂, rfl⟩ := written
    rw [List.length_append] at small
    refine .cons ?_ ?_
    · exact Field.spelled_of_encodeAll length written₁ (survive values List.mem_cons_self)
        (by omega)
    · exact ih written₂ (fun group member => survive group (List.mem_cons_of_mem _ member))
        (by omega)

/-- Groups take at least two bytes, so that their number stays below the limit of a signed word. -/
theorem tailSpelled_of_encode {groups : List (List Value)}
    (wide : ∀ fields, s.tail = some fields → 2 ≤ Field.minSizes fields)
    (written : encodeTail e opcode s groups = .ok bytes)
    (survive : ∀ group ∈ groups, ∀ v ∈ group, v.Survives e) (small : bytes.length < 2 ^ 32) :
    TailSpelled e s.tail bytes groups := by
  rw [encodeTail] at written
  split at written
  · next fields eq =>
    simp only [bind_eq_ok, pure_eq_ok] at written
    obtain ⟨body, written, rfl⟩ := written
    rw [List.length_append] at small
    have many := many_of_encodeGroups written survive (by omega)
    -- Half as many groups as bytes at most, which is what the signed count can hold.
    have few := many.length_le fun _ _ spelled =>
      Nat.le_trans (wide fields eq) (Field.Spelled.minSizes_le spelled)
    rw [eq]
    exact ⟨by omega, body, many, rfl⟩
  · next eq =>
    split at written
    · next empty =>
      cases written
      rw [eq]
      exact ⟨rfl, List.isEmpty_iff.mp empty⟩
    · cases written

/-- What is written for canonical parameters stands for them, if their strings survive. -/
theorem spelled_of_encode (wide : ∀ fields, s.tail = some fields → 2 ≤ Field.minSizes fields)
    (written : p.encode e opcode s = .ok bytes) (canon : p.IsCanonical) (survives : p.Survives e)
    (small : bytes.length < 2 ^ 32) : Spelled e s bytes p := by
  simp only [encode, encodeValues, refuse_eq_ok, bind_eq_ok, pure_eq_ok, ne_eq, Decidable.not_not]
    at written
  obtain ⟨_, ⟨length, fixed, written₁, tail, written₂, rfl⟩, text, written₃, rfl⟩ := written
  simp only [List.length_append] at small
  have spelled₁ := Field.spelled_of_encodeAll length written₁ survives.fixed (by omega)
  have spelled₂ := tailSpelled_of_encode wide written₂ survives.tail (by omega)
  refine ⟨_, _, ⟨fixed, tail, spelled₁, spelled₂, rfl⟩, ?_, rfl⟩
  rw [encodeText] at written₃
  split at written₃
  · next block found carries =>
    rw [carries, found]
    obtain ⟨canon, free⟩ := canon block found
    exact ⟨block, TextBlock.spelled_of_encode written₃ canon free (survives.text block found)
      (by omega), rfl⟩
  · cases written₃
  · cases written₃
  · next found carries =>
    cases written₃
    rw [carries, found]
    exact ⟨rfl, rfl⟩

end Parameters

/-! ### Records -/

/-- Groups of a variable tail take at least two bytes. -/
theorem Opcode.two_le_minSizes {opcode : Opcode} {s : Schema} (schema : opcode.schema? = some s)
    (fields : List Field) (tail : s.tail = some fields) : 2 ≤ Field.minSizes fields := by
  have rows : ∀ entry ∈ catalogue, ∀ s ∈ entry.schema, ∀ fields ∈ s.tail,
      2 ≤ Field.minSizes fields := by
    decide
  -- A schema comes out of a row of the catalogue.
  obtain ⟨entry, found, schema⟩ := Option.bind_eq_some_iff.mp schema
  exact rows entry (List.mem_of_getElem? found) s schema fields tail

namespace Command

/-- The bytes stand for the body of a command. -/
def BodySpelled (e : Encoding) (opcode : Opcode) : Format Body := fun bytes body =>
  match opcode.schema? with
  | some schema => ∃ params, Parameters.Spelled e schema bytes params ∧ body = .typed params
  | none => body = .raw bytes

/-- The bytes are the record of a command. -/
def Spelled (e : Encoding) : Format Command := fun bytes c =>
  ∃ body, body.length < 2 ^ 32 ∧ BodySpelled e c.opcode body c.body ∧
    bytes = c.opcode.code :: (Bytes.u32 c.indent ++ c.flags :: Bytes.counted body)

/-- Records side by side from an offset on, each with its span. -/
inductive Records (e : Encoding) : Nat → Format (List (Command × Span))
  | nil {offset : Nat} : Records e offset [] []
  | cons {offset : Nat} {bytes more : List UInt8} {c : Command} {rest : List (Command × Span)} :
      Spelled e bytes c → Records e (offset + bytes.length) more rest →
      Records e offset (bytes ++ more)
        ((c, ⟨offset, offset + minSize, offset + bytes.length⟩) :: rest)

theorem decodeBody_eq_ok {r : Reading} {opcode : Opcode} {c : Cursor} {body : Body} :
    decodeBody r opcode c = .ok body ↔ BodySpelled r.encoding opcode c.rest body := by
  cases schema : opcode.schema? with
  | some s =>
    simp only [decodeBody, BodySpelled, schema, bind_eq_ok, pure_eq_ok, Parameters.decode_eq_ok]
    exact exists_congr fun _ => and_congr_right fun _ => eq_comm
  | none =>
    simp only [decodeBody, BodySpelled, schema, Except.ok.injEq]
    exact eq_comm

variable {c : Command}

theorem Spelled.minSize_le (spelled : Spelled e bytes c) : minSize ≤ bytes.length := by
  obtain ⟨body, _, _, rfl⟩ := spelled
  simp [minSize]
  omega

/-- Reading a record, from a cursor outside any record. -/
theorem decode_eq_ok {r : Reading} {start c' : Cursor} {span : Span}
    (outside : start.opcode = none) :
    decode r start = .ok ((c, span), c') ↔ ∃ bytes, Spelled r.encoding bytes c ∧
      span = ⟨start.offset, start.offset + minSize, start.offset + bytes.length⟩ ∧
      start.Passes bytes c' := by
  simp only [decode, Cursor.split, bind_eq_ok, pure_eq_ok, Prod.exists, Reads.u8 _ _ _,
    Reads.u32 _ _ _, Reads.take _ _ _ _, decodeBody_eq_ok, Prod.mk.injEq]
  constructor
  · intro read
    obtain ⟨code, c₁, ⟨_, rfl, passes₁⟩, indent, c₂, ⟨_, rfl, passes₂⟩, flags, c₃, ⟨_, rfl,
      passes₃⟩, length, c₄, ⟨_, rfl, passes₄⟩, _, _, ⟨_, c₅, ⟨body, ⟨rfl, exact⟩, passes₅⟩, rfl,
      rfl⟩, inner, spelled, ⟨rfl, rfl⟩, rfl⟩ := read
    have same : Bytes.counted body = Bytes.u32 length ++ body := Bytes.counted_eq exact
    have all : start.Passes (code :: (Bytes.u32 indent ++ flags :: Bytes.counted body))
        { c₅ with opcode := none } := by
      -- The opcode is set while the record is read and cleared behind it.
      have front : c₁ = { c₁ with opcode := none } := by
        rw [← outside, ← passes₁.2.2]
      have behind := (passes₂.append (passes₃.append (passes₄.append passes₅))).withOpcode none
      rw [same]
      refine passes₁.append ?_
      rw [front]
      exact behind
    refine ⟨_, ⟨body, exact ▸ length.toNat_lt, spelled, rfl⟩, ?_, all⟩
    -- The span follows from the lengths of the parts.
    have offset₁ := passes₁.2.1
    have offset₂ := passes₂.2.1
    have offset₃ := passes₃.2.1
    have offset₄ := passes₄.2.1
    have offset₅ : c₅.offset = start.offset + _ := all.2.1
    simp only [Bytes.length_u32, List.length_singleton] at offset₁ offset₂ offset₃ offset₄
    simp only [Span.mk.injEq, minSize, true_and]
    omega
  · intro spelled
    obtain ⟨_, ⟨body, low, spelled, rfl⟩, rfl, passes⟩ := spelled
    have length : (UInt32.ofNat body.length).toNat = body.length := UInt32.toNat_ofNat_of_lt' low
    obtain ⟨c₁, passes₁, passes⟩ := Cursor.passes_cons.mp passes
    have behind : { c' with opcode := none } = c' := by
      rw [← outside, ← passes₁.2.2, ← passes.2.2]
    obtain ⟨c₂, passes₂, passes⟩ := Cursor.passes_append.mp (passes.withOpcode (some c.opcode))
    obtain ⟨c₃, passes₃, passes⟩ := Cursor.passes_cons.mp passes
    obtain ⟨c₄, passes₄, passes₅⟩ := Cursor.passes_append.mp passes
    refine ⟨c.opcode.code, c₁, ⟨_, rfl, passes₁⟩, c.indent, c₂, ⟨_, rfl, passes₂⟩, c.flags, c₃,
      ⟨_, rfl, passes₃⟩, _, c₄, ⟨_, rfl, passes₄⟩, _, _, ⟨body, _, ⟨_, ⟨rfl, length.symm⟩, passes₅⟩,
      rfl, rfl⟩, c.body, spelled, ⟨rfl, ?_⟩, behind⟩
    have offset₁ := passes₁.2.1
    have offset₂ := passes₂.2.1
    have offset₃ := passes₃.2.1
    have offset₄ := passes₄.2.1
    have offset₅ := passes₅.2.1
    simp only [Bytes.length_u32, Bytes.length_count, List.length_singleton]
      at offset₁ offset₂ offset₃ offset₄ offset₅
    simp only [Span.mk.injEq, minSize, List.length_cons, List.length_append, Bytes.length_u32,
      Bytes.length_counted, true_and]
    omega

/-- Reading a number of records accepts that many, side by side, and finds their spans. -/
theorem many_decode_eq_ok {r : Reading} {n : Nat} {start c' : Cursor}
    {records : List (Command × Span)} (outside : start.opcode = none) :
    Cursor.many (decode r) n start = .ok (records, c') ↔ ∃ bytes, records.length = n ∧
      Records r.encoding start.offset bytes records ∧ start.Passes bytes c' := by
  induction n generalizing start records with
  | zero =>
    simp only [Cursor.many, Except.ok.injEq, Prod.mk.injEq]
    constructor
    · intro read
      obtain ⟨rfl, rfl⟩ := read
      exact ⟨[], rfl, .nil, Cursor.passes_nil.mpr rfl⟩
    · intro spelled
      obtain ⟨_, empty, spelled, passes⟩ := spelled
      cases spelled with
      | nil => exact ⟨rfl, (Cursor.passes_nil.mp passes).symm⟩
      | cons => cases empty
  | succ n ih =>
    simp only [Cursor.many, bind_eq_ok, pure_eq_ok, Prod.exists, Prod.mk.injEq,
      decode_eq_ok outside]
    constructor
    · intro read
      obtain ⟨c, _, c₁, ⟨bytes, spelled, rfl, passes⟩, rest, c₂, read, rfl, rfl⟩ := read
      obtain ⟨more, rfl, records, passes'⟩ := (ih (passes.2.2.trans outside)).mp read
      -- The next record begins where this one stops.
      rw [passes.2.1] at records
      exact ⟨bytes ++ more, rfl, .cons spelled records, passes.append passes'⟩
    · intro spelled
      obtain ⟨_, length, records, passes⟩ := spelled
      cases records with
      | nil => cases length
      | cons spelled records =>
        obtain ⟨c₁, passes₁, passes₂⟩ := Cursor.passes_append.mp passes
        rw [← passes₁.2.1] at records
        exact ⟨_, _, c₁, ⟨_, spelled, rfl, passes₁⟩, _, c',
          (ih (passes₁.2.2.trans outside)).mpr ⟨_, Nat.succ.inj length, records, passes₂⟩, rfl, rfl⟩

/-- A command is written with the bytes that stand for it. -/
theorem Spelled.encode_eq (spelled : Spelled e bytes c) : c.encode e = .ok bytes := by
  obtain ⟨opcode, indent, flags, inner⟩ := c
  obtain ⟨body, _, spelled, rfl⟩ := spelled
  have written : encodeBody e ⟨opcode, indent, flags, inner⟩ = .ok body := by
    simp only [BodySpelled] at spelled
    split at spelled
    · next schema eq =>
      obtain ⟨params, spelled, rfl⟩ := spelled
      simp only [encodeBody, eq, spelled.encode_eq]
    · obtain rfl := spelled
      rfl
  simp only [encode, written, bind, Except.bind, pure, Except.pure, List.cons_append]

theorem Records.many {offset : Nat} {records : List (Command × Span)}
    (spelled : Records e offset bytes records) :
    Format.Many (Spelled e) bytes (records.map Prod.fst) := by
  induction spelled with
  | nil => exact .nil
  | cons first _ ih => exact .cons first ih

/-- Records side by side can be given their spans, from any offset on. -/
theorem exists_records {commands : List Command} (many : Format.Many (Spelled e) bytes commands)
    (offset : Nat) :
    ∃ records, records.map Prod.fst = commands ∧ Records e offset bytes records := by
  induction many generalizing offset with
  | nil => exact ⟨[], rfl, .nil⟩
  | @cons first _ _ _ spelled _ ih =>
    obtain ⟨records, rfl, rest⟩ := ih (offset + first.length)
    exact ⟨_, rfl, .cons spelled rest⟩

theorem encodeAll_of_many {commands : List Command}
    (many : Format.Many (Spelled e) bytes commands) : encodeAll e commands = .ok bytes := by
  induction many with
  | nil => rfl
  | cons first _ ih =>
    simp only [encodeAll, first.encode_eq, ih, bind, Except.bind, pure, Except.pure]

/-- A command is typed with a canonical text block, or raw under an opcode without a schema. -/
def IsCanonical (c : Command) : Prop :=
  match c.body with
  | .typed params => params.IsCanonical
  | .raw _ => c.opcode.schema? = none

/-- Every string of the command survives the encoding. -/
def Survives (e : Encoding) (c : Command) : Prop :=
  ∀ params, c.body = .typed params → params.Survives e

/-- What is written for a canonical command stands for it, if its strings survive. -/
theorem spelled_of_encode (written : c.encode e = .ok bytes) (canon : c.IsCanonical)
    (survives : c.Survives e) (small : bytes.length < 2 ^ 32) : Spelled e bytes c := by
  obtain ⟨opcode, indent, flags, inner⟩ := c
  simp only [encode, bind_eq_ok, pure_eq_ok, List.cons_append] at written
  obtain ⟨body, written, rfl⟩ := written
  simp only [List.length_cons, List.length_append, Bytes.length_counted] at small
  refine ⟨body, by omega, ?_, rfl⟩
  cases inner with
  | raw bytes =>
    -- Without a schema, any bytes stand for themselves.
    cases written
    simp only [BodySpelled, show opcode.schema? = none from canon]
  | typed params =>
    simp only [encodeBody] at written
    split at written
    · next typed => cases typed
    · next schema typed eq =>
      cases typed
      simp only [BodySpelled, eq]
      exact ⟨params, Parameters.spelled_of_encode (Opcode.two_le_minSizes eq) written canon
        (survives params rfl) (by omega), rfl⟩
    · cases written

theorem many_of_encodeAll {commands : List Command} (written : encodeAll e commands = .ok bytes)
    (canon : ∀ c ∈ commands, c.IsCanonical) (survive : ∀ c ∈ commands, c.Survives e)
    (small : bytes.length < 2 ^ 32) : Format.Many (Spelled e) bytes commands := by
  induction commands generalizing bytes with
  | nil =>
    cases written
    exact .nil
  | cons c commands ih =>
    simp only [encodeAll, bind_eq_ok, pure_eq_ok] at written
    obtain ⟨first, written₁, more, written₂, rfl⟩ := written
    rw [List.length_append] at small
    refine .cons ?_ ?_
    · exact spelled_of_encode written₁ (canon c List.mem_cons_self) (survive c List.mem_cons_self)
        (by omega)
    · exact ih written₂ (fun c member => canon c (List.mem_cons_of_mem _ member))
        (fun c member => survive c (List.mem_cons_of_mem _ member)) (by omega)

end Command

end NovelChart
