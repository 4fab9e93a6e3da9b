import NovelChart.Proofs.Chart

/-!
# Where faults are found

A cursor carries the opcode of the record that is being read and the offset of its next byte, and a
fault takes both away with it. Readers hand cursors on, split them and go back to where a token or a
label began, and still every fault points between the cursor that a reader was called at and the
last byte that was left there, under the opcode of that cursor. The opcode is set behind the first
byte of a record and cleared behind the last one. A fault with an opcode therefore tells that
reading broke off inside a record, and which one.

## Main definitions

* `Cursor.Reports`, `Cursor.Accounts`: a fault, or whatever fault an outcome is, lies within the
  bytes that are left at a cursor and has the opcode of the cursor
* `Chart.BreaksOff`: some records can be read, and the next one begins but is none

## Main results

* `Command.decode_fault_cases`: a fault of a record lies behind its opcode and has this opcode
* `Command.decode_raw`: a record without a schema is read whatever its body holds
* `Chart.fault_located`: where the faults of a chart lie, and when they have an opcode
-/

namespace NovelChart

section Outcomes

variable {ε α β : Type}

/-- A sequence of two computations fails when one of them does. -/
theorem bind_eq_error {m : Except ε α} {f : α → Except ε β} {e : ε} :
    (m >>= f) = .error e ↔ m = .error e ∨ ∃ x, m = .ok x ∧ f x = .error e := by
  cases m with
  | error e' => simp [bind, Except.bind]
  | ok x => simp [bind, Except.bind]

end Outcomes

/-! ### Cursors -/

namespace Cursor

variable {α β : Type} {c c' : Cursor} {bytes : List UInt8} {f : FormatError}
  {m : Except FormatError α}

/-- The fault lies within the bytes that are left at the cursor, and has its opcode. -/
structure Reports (c : Cursor) (f : FormatError) : Prop where
  opcode : f.opcode = c.opcode
  low : c.offset ≤ f.offset
  high : f.offset ≤ c.offset + c.remaining

/-- If the outcome is a fault, it lies within the bytes that are left at the cursor. -/
def Accounts (c : Cursor) (m : Except FormatError α) : Prop :=
  ∀ f, m = .error f → c.Reports f

/-- Wherever the reader is called, its faults lie within the bytes that are left there. -/
def Located (read : Cursor → Except FormatError α) : Prop :=
  ∀ c : Cursor, c.Accounts (read c)

/-- A fault that is found at the cursor. -/
theorem reports_error (c : Cursor) (fault : FormatFault) : c.Reports (c.error fault) :=
  ⟨rfl, Nat.le_refl _, Nat.le_add_right _ _⟩

/-- What is reported further on is reported from here. -/
theorem Reports.behind (reports : c'.Reports f) (passes : c.Passes bytes c') : c.Reports f := by
  obtain ⟨opcode, low, high⟩ := reports
  have offset := passes.2.1
  have remaining := passes.remaining
  exact ⟨opcode.trans passes.2.2, by omega, by omega⟩

theorem accounts_ok (x : α) : c.Accounts (.ok x : Except FormatError α) := by
  rintro _ ⟨⟩

theorem accounts_error (fault : FormatFault) :
    c.Accounts (.error (c.error fault) : Except FormatError α) := by
  rintro _ ⟨⟩
  exact reports_error c fault

theorem Accounts.behind (accounts : c'.Accounts m) (passes : c.Passes bytes c') :
    c.Accounts m := fun f failed => (accounts f failed).behind passes

/-- What is reported of some of the bytes is reported of all of them. -/
theorem Accounts.within (passes : c.Passes bytes c')
    (accounts : Accounts { c with rest := bytes } m) : c.Accounts m := by
  intro f failed
  obtain ⟨opcode, low, high⟩ := accounts f failed
  have remaining := passes.remaining
  refine ⟨opcode, low, high.trans ?_⟩
  change c.offset + bytes.length ≤ _
  omega

theorem Accounts.next {g : α → Except FormatError β} (first : c.Accounts m)
    (second : ∀ x, m = .ok x → c.Accounts (g x)) : c.Accounts (m >>= g) := by
  intro f failed
  rcases bind_eq_error.mp failed with failed | ⟨x, read, failed⟩
  · exact first f failed
  · exact second x read f failed

/-- Reading a value and going on behind it. What follows may still point back to where the value
began. -/
theorem Accounts.bind {read : Cursor → Except FormatError (Step α)} {F : Format α}
    {g : Step α → Except FormatError β} (first : c.Accounts (read c)) (reads : Reads read F)
    (second : ∀ x bytes c', c.Passes bytes c' → c.Accounts (g (x, c'))) :
    c.Accounts (read c >>= g) := by
  refine first.next fun step done => ?_
  obtain ⟨x, c'⟩ := step
  obtain ⟨bytes, _, passes⟩ := (reads c x c').mp done
  exact second x bytes c' passes

theorem located_take (n : Nat) : Located fun c => c.take n := by
  intro c
  simp only [Cursor.take]
  split
  · exact accounts_ok _
  · exact accounts_error _

theorem located_u8 : Located u8 := by
  intro c
  rw [u8]
  split
  · exact accounts_ok _
  · exact accounts_error _

theorem located_u32 : Located u32 := fun c =>
  (located_take 4 c).bind (Reads.take 4) fun _ _ _ _ => accounts_ok _

theorem located_i32 : Located i32 := fun c =>
  (located_u32 c).bind Reads.u32 fun _ _ _ _ => accounts_ok _

theorem located_u64 : Located u64 := fun c =>
  (located_take 8 c).bind (Reads.take 8) fun _ _ _ _ => accounts_ok _

theorem located_text (r : Reading) : Located (text r) := by
  intro c
  refine (located_u32 c).bind Reads.u32 fun length _ body passes => ?_
  dsimp only
  split
  · exact accounts_error _
  · refine Accounts.behind ?_ passes
    refine (located_take length.toNat body).bind (Reads.take _) fun bytes _ behind _ => ?_
    dsimp only
    split
    · exact accounts_ok _
    · exact accounts_error _

theorem located_many {read : Cursor → Except FormatError (Step α)} {F : Format α}
    (located : Located read) (reads : Reads read F) (n : Nat) : Located (many read n) := by
  induction n with
  | zero => exact fun c => accounts_ok _
  | succ n ih =>
    intro c
    rw [many]
    refine (located c).bind reads fun _ _ c' passes => Accounts.behind ?_ passes
    exact (ih c').bind (reads.many n) fun _ _ _ _ => accounts_ok _

theorem accounts_finish (c : Cursor) : c.Accounts c.finish := by
  rw [finish]
  split
  · exact accounts_ok _
  · exact accounts_error _

/-- Reading a number of values fails at the first one that cannot be read. -/
theorem many_eq_error {read : Cursor → Except FormatError (Step α)} {n : Nat} :
    many read n c = .error f ↔
      ∃ k < n, ∃ xs c', many read k c = .ok (xs, c') ∧ read c' = .error f := by
  induction n generalizing c with
  | zero => simp [many]
  | succ n ih =>
    simp only [many, bind_eq_error, Prod.exists, ih]
    constructor
    · rintro (failed | ⟨x, c₁, first, ⟨k, few, xs, c', more, failed⟩ | ⟨_, _, _, ⟨⟩⟩⟩)
      · exact ⟨0, by omega, [], c, rfl, failed⟩
      · refine ⟨k + 1, by omega, x :: xs, c', ?_, failed⟩
        simp only [many, bind_eq_ok, pure_eq_ok, Prod.exists]
        exact ⟨x, c₁, first, xs, c', more, rfl⟩
    · rintro ⟨k, few, xs, c', read, failed⟩
      cases k with
      | zero =>
        cases read
        exact .inl failed
      | succ k =>
        simp only [many, bind_eq_ok, pure_eq_ok, Prod.exists] at read
        obtain ⟨x, c₁, first, xs, _, more, ⟨⟩⟩ := read
        exact .inr ⟨x, c₁, first, .inl ⟨k, by omega, xs, c', more, failed⟩⟩

end Cursor

open Cursor

/-! ### Values and text blocks -/

theorem Value.located_decode (r : Reading) (kind : Kind) : Located (Value.decode r kind) := by
  induction kind with
  | int => exact fun c => (located_i32 c).bind Reads.i32 fun _ _ _ _ => accounts_ok _
  | real => exact fun c => (located_u64 c).bind Reads.u64 fun _ _ _ _ => accounts_ok _
  | flag =>
    intro c
    rw [Value.decode]
    refine (located_u8 c).bind Reads.u8 fun b _ behind _ => ?_
    dsimp only
    split
    · exact accounts_ok _
    · split
      · exact accounts_ok _
      · exact accounts_error _
  | str => exact fun c => (located_text r c).bind (Reads.text r) fun _ _ _ _ => accounts_ok _
  | array elem ih =>
    intro c
    rw [Value.decode]
    refine (located_u32 c).bind Reads.u32 fun count _ body passes => ?_
    dsimp only
    split
    · exact accounts_error _
    · refine Accounts.behind ?_ passes
      have items := located_many ih (Value.reads_decode r elem) count.toNat body
      exact items.next fun _ _ => accounts_ok _

theorem Field.located_decodeAll (r : Reading) (fields : List Field) :
    Located (Field.decodeAll r fields) := by
  induction fields with
  | nil => exact fun c => accounts_ok _
  | cons f fs ih =>
    intro c
    rw [Field.decodeAll]
    refine (Value.located_decode r f.kind c).bind (Value.reads_decode r f.kind)
      fun _ _ c' passes => Accounts.behind ?_ passes
    exact (ih c').bind (Field.reads_decodeAll r fs) fun _ _ _ _ => accounts_ok _

namespace Markup

variable {start c : Cursor} {bytes : List UInt8}

theorem accounts_fault {α : Type} (f : BlockFault) :
    c.Accounts (fault c f : Except FormatError α) :=
  accounts_error _

/-- Faults of an attribute point at the attribute or at the start of its token. -/
theorem accounts_readAttr (r : Reading) (a : AttrSpec) (passes : start.Passes bytes c) :
    start.Accounts (readAttr r start a c) := by
  rw [readAttr]
  split
  · exact ((located_i32 c).behind passes).next fun _ _ => accounts_ok _
  · exact (located_text r c).behind passes
  · refine ((located_u8 c).behind passes).next fun step _ => ?_
    dsimp only
    split
    · exact accounts_ok _
    · exact accounts_fault _

theorem accounts_readAttrs (r : Reading) (mask i : Nat) (row : List AttrSpec)
    (passes : start.Passes bytes c) : start.Accounts (readAttrs r start mask i row c) := by
  induction row generalizing i c bytes with
  | nil => exact accounts_ok _
  | cons a row ih =>
    rw [readAttrs]
    split
    · refine (accounts_readAttr r a passes).next fun step read => ?_
      obtain ⟨value, c₁⟩ := step
      obtain ⟨_, _, passes₁⟩ := (reads_attr r start a c value c₁).mp read
      exact (ih (i + 1) (passes.append passes₁)).next fun _ _ => accounts_ok _
    · exact ih (i + 1) passes

theorem accounts_readChar (r : Reading) (passes : start.Passes bytes c) :
    start.Accounts (readChar r start c) := by
  rw [readChar]
  refine ((located_u8 c).behind passes).next fun step read => ?_
  obtain ⟨length, c₁⟩ := step
  obtain ⟨_, _, passes₁⟩ := (Reads.u8 c length c₁).mp read
  refine ((located_take length.toNat c₁).behind (passes.append passes₁)).next fun step _ => ?_
  dsimp only
  split
  · exact accounts_error _
  · split
    · exact accounts_ok _
    · exact accounts_fault _

theorem accounts_readBreak (passes : start.Passes bytes c) :
    start.Accounts (readBreak start c) := by
  rw [readBreak]
  refine ((located_u8 c).behind passes).next fun step _ => ?_
  dsimp only
  split
  · exact accounts_ok _
  · split
    · exact accounts_ok _
    · split
      · exact accounts_ok _
      · exact accounts_fault _

variable {read : Nat → Cursor → Except FormatError (Step (List Token))}

theorem accounts_readTag (r : Reading) (located : ∀ n, Located (read n))
    (passes : start.Passes bytes c) : start.Accounts (readTag r read start c) := by
  rw [readTag]
  refine ((located_u8 c).behind passes).next fun step done => ?_
  obtain ⟨code, c₁⟩ := step
  obtain ⟨_, _, passes₁⟩ := (Reads.u8 c code c₁).mp done
  dsimp only
  split
  · exact accounts_fault _
  · next spec _ =>
    have passes₁ := passes.append passes₁
    refine ((located_u8 c₁).behind passes₁).next fun step done => ?_
    obtain ⟨mask, c₂⟩ := step
    obtain ⟨_, _, passes₂⟩ := (Reads.u8 c₁ mask c₂).mp done
    dsimp only
    split
    · exact accounts_fault _
    · have passes₂ := passes₁.append passes₂
      refine (accounts_readAttrs r mask.toNat 0 spec.attrs passes₂).next fun step done => ?_
      obtain ⟨attrs, c₃⟩ := step
      obtain ⟨_, _, passes₃⟩ := (reads_attrs r start mask.toNat 0 spec.attrs c₂ attrs c₃).mp done
      dsimp only
      split
      · -- What a span encloses is read behind its count.
        refine Accounts.behind ?_ (passes₂.append passes₃)
        refine (located_u32 c₃).bind Reads.u32 fun count _ c₄ passes₄ => ?_
        exact ((located count.toNat c₄).behind passes₄).next fun _ _ => accounts_ok _
      · exact accounts_ok _

theorem located_readToken (r : Reading) (located : ∀ n, Located (read n)) :
    Located (readToken r read) := by
  intro start
  rw [readToken]
  refine (located_u8 start).bind Reads.u8 fun type _ c passes => ?_
  dsimp only
  split
  · exact accounts_readChar r passes
  · split
    · exact accounts_readTag r located passes
    · split
      · exact accounts_readBreak passes
      · exact accounts_fault _

/-- Faults inside nested content lie within it, however deep they are. -/
theorem located_readContent (r : Reading) (room count : Nat) :
    Located (readContent r room count) := by
  induction room generalizing count with
  | zero => exact fun c => accounts_fault _
  | succ room ih =>
    intro c
    rw [readContent]
    split
    · rw [readTokens_eq]
      have tokens := located_many (located_readToken r ih)
        (reads_token r fun n _ => reads_content r room n) count c
      exact tokens.next fun _ _ => accounts_ok _
    · exact accounts_error _

end Markup

theorem TextBlock.located_decode (r : Reading) : Located (TextBlock.decode r) := by
  intro c
  refine (located_take 6 c).bind (Reads.take 6) fun opening _ c₁ passes₁ => ?_
  dsimp only
  split
  · exact Markup.accounts_fault _
  · refine Accounts.behind ?_ passes₁
    refine (located_take 3 c₁).bind (Reads.take 3) fun digits _ c₂ passes₂ => ?_
    dsimp only
    split
    · exact Markup.accounts_fault _
    · refine Accounts.behind ?_ passes₂
      refine (located_u32 c₂).bind Reads.u32 fun count _ c₃ passes₃ => ?_
      exact ((Markup.located_readContent r _ _ c₃).behind passes₃).next fun _ _ => accounts_ok _

/-! ### Records -/

namespace Parameters

theorem located_decodeTail (r : Reading) (fields : List Field) :
    Located (decodeTail r fields) := by
  intro c
  refine (located_i32 c).bind Reads.i32 fun count _ c₁ passes => ?_
  dsimp only
  split
  · exact accounts_error _
  · exact (located_many (Field.located_decodeAll r fields) (Field.reads_decodeAll r fields) _
      c₁).behind passes

theorem located_readTail (r : Reading) (tail : Option (List Field)) :
    Located (readTail r tail) := by
  cases tail with
  | none => exact fun c => accounts_ok _
  | some fields => exact located_decodeTail r fields

theorem located_readText (r : Reading) (carriesText : Bool) :
    Located (readText r carriesText) := by
  cases carriesText with
  | false => exact fun c => accounts_ok _
  | true => exact fun c => (TextBlock.located_decode r c).next fun _ _ => accounts_ok _

theorem located_decode (r : Reading) (s : Schema) : Located (decode r s) := by
  intro c
  rw [decode_eq]
  refine (Field.located_decodeAll r s.fields c).bind (Field.reads_decodeAll r s.fields)
    fun _ _ c₁ passes₁ => Accounts.behind ?_ passes₁
  refine (located_readTail r s.tail c₁).bind (reads_readTail r s.tail)
    fun _ _ c₂ passes₂ => Accounts.behind ?_ passes₂
  refine (located_readText r s.carriesText c₂).bind (reads_readText r s.carriesText)
    fun _ _ c₃ passes₃ => Accounts.behind ?_ passes₃
  exact (accounts_finish c₃).next fun _ _ => accounts_ok _

end Parameters

namespace Command

variable {r : Reading} {f : FormatError}

theorem located_decodeBody (r : Reading) (opcode : Opcode) : Located (decodeBody r opcode) := by
  intro c
  rw [decodeBody]
  split
  · next schema _ => exact (Parameters.located_decode r schema c).next fun _ _ => accounts_ok _
  · exact accounts_ok _

/-- A record that cannot be read is cut off in front of its opcode, or the fault lies behind the
opcode and has it. -/
theorem decode_fault_cases {start : Cursor} (failed : decode r start = .error f) :
    (start.rest = [] ∧ start.Reports f) ∨
      ∃ code rest, start.rest = code :: rest ∧
        Reports ⟨some ⟨code⟩, start.offset + 1, rest⟩ f := by
  cases bytes : start.rest with
  | nil =>
    have empty : start.u8 = .error (start.error .truncated) := by rw [u8, bytes]
    refine .inl ⟨rfl, located_u8 start f ?_⟩
    rw [decode, empty] at failed
    cases failed
    exact empty
  | cons code rest =>
    have first : start.u8 = .ok (code, { start with offset := start.offset + 1, rest }) := by
      rw [u8, bytes]
    refine .inr ⟨code, rest, rfl, ?_⟩
    rw [decode, first] at failed
    -- All that follows is read from a cursor with this opcode.
    revert f
    change Accounts ⟨some ⟨code⟩, start.offset + 1, rest⟩ _
    refine (located_u32 _).bind Reads.u32 fun indent _ c₂ passes₂ => Accounts.behind ?_ passes₂
    refine (located_u8 c₂).bind Reads.u8 fun flags _ c₃ passes₃ => Accounts.behind ?_ passes₃
    refine (located_u32 c₃).bind Reads.u32 fun length _ c₄ passes₄ => Accounts.behind ?_ passes₄
    simp only [split]
    refine Accounts.next ?_ ?_
    · exact (located_take length.toNat c₄).next fun _ _ => accounts_ok _
    · rintro ⟨inner, behind⟩ done
      simp only [bind_eq_ok, pure_eq_ok, Prod.exists, Prod.mk.injEq] at done
      obtain ⟨body, _, taken, rfl, rfl⟩ := done
      obtain ⟨_, ⟨rfl, _⟩, passes⟩ := (Reads.take length.toNat c₄ _ _).mp taken
      refine Accounts.within passes ?_
      exact (located_decodeBody r _ _).next fun _ _ => accounts_ok _

/-- A record without a schema is read whatever its body holds, as long as all of it is there. -/
theorem decode_raw {opcode : Opcode} (schemaless : opcode.schema? = none) (r : Reading)
    (offset : Nat) (indent : UInt32) (flags : UInt8) {length : UInt32} {rest : List UInt8}
    (present : length.toNat ≤ rest.length) :
    decode r ⟨none, offset,
        opcode.code :: (Bytes.u32 indent ++ flags :: (Bytes.u32 length ++ rest))⟩ =
      .ok ((⟨opcode, indent, flags, .raw (rest.take length.toNat)⟩,
          ⟨offset, offset + minSize, offset + minSize + length.toNat⟩),
        ⟨none, offset + minSize + length.toNat, rest.drop length.toNat⟩) := by
  have taken : (rest.take length.toNat).length = length.toNat := List.length_take_of_le present
  have counted := Bytes.counted_eq taken
  have record : (opcode.code :: (Bytes.u32 indent ++
      flags :: Bytes.counted (rest.take length.toNat))).length = minSize + length.toNat := by
    simp only [List.length_cons, List.length_append, Bytes.length_u32, Bytes.length_counted, taken,
      minSize]
    omega
  refine (decode_eq_ok rfl).mpr ⟨_, ⟨rest.take length.toNat, ?_, ?_, rfl⟩, ?_, ?_, ?_, rfl⟩
  · rw [taken]
    exact length.toNat_lt
  · simp only [BodySpelled, schemaless]
  · simp only [record, Nat.add_assoc]
  · simp only [counted, List.cons_append, List.append_assoc, List.take_append_drop]
  · simp only [record, Nat.add_assoc]

variable {start : Cursor}

/-- Reading a record fails exactly where none stands. -/
theorem exists_decode_eq_error (outside : start.opcode = none) :
    (∃ f, decode r start = .error f) ↔
      ∀ record more c, start.rest = record ++ more → ¬Spelled r.encoding record c := by
  constructor
  · rintro ⟨f, failed⟩ record more c bytes spelled
    have passes : start.Passes record ⟨none, start.offset + record.length, more⟩ :=
      ⟨bytes, rfl, outside.symm⟩
    cases failed.symm.trans ((decode_eq_ok outside).mpr ⟨record, spelled, rfl, passes⟩)
  · intro missing
    cases outcome : decode r start with
    | error f => exact ⟨f, rfl⟩
    | ok step =>
      obtain ⟨⟨c, span⟩, behind⟩ := step
      obtain ⟨record, spelled, _, passes⟩ := (decode_eq_ok outside).mp outcome
      exact absurd spelled (missing record behind.rest c passes.1)

/-- A command stream breaks off inside a record: behind its two words, some records lie side by
side, fewer than the first word says; another one begins with its opcode, but none stands there. -/
def BreaksOff (r : Reading) (offset : Nat) (stream : List UInt8) (place : Nat)
    (opcode : Opcode) : Prop :=
  ∃ (count size : UInt32) (front rest : List UInt8) (records : List (Command × Span)),
    stream = Bytes.u32 count ++ (Bytes.u32 size ++ (front ++ opcode.code :: rest)) ∧
    (r.guarded = true → count.toNat * minSize ≤ (front ++ opcode.code :: rest).length) ∧
    records.length < count.toNat ∧
    Records r.encoding (offset + 8) front records ∧
    place = offset + 8 + front.length ∧
    ∀ record more c, opcode.code :: rest = record ++ more → ¬Spelled r.encoding record c

/-- A stream that cannot be read has a fault outside its records, or breaks off inside one. -/
theorem decodeStream_fault_cases (outside : start.opcode = none)
    (failed : decodeStream r start = .error f) :
    start.Reports f ∨ ∃ place opcode, BreaksOff r start.offset start.rest place opcode ∧
      f.opcode = some opcode ∧ f.offset ≤ start.offset + start.remaining := by
  rw [decodeStream] at failed
  rcases bind_eq_error.mp failed with failed | ⟨⟨count, sized⟩, read₁, failed⟩
  · exact .inl (located_u32 start f failed)
  obtain ⟨_, rfl, passes₁⟩ := (Reads.u32 _ _ _).mp read₁
  rcases bind_eq_error.mp failed with failed | ⟨⟨size, c⟩, read₂, failed⟩
  · exact .inl ((located_u32 sized).behind passes₁ f failed)
  obtain ⟨_, rfl, passes₂⟩ := (Reads.u32 _ _ _).mp read₂
  have passes := passes₁.append passes₂
  have outside' : c.opcode = none := passes.2.2.trans outside
  dsimp only at failed
  split at failed
  · cases failed
    exact .inl (reports_error start _)
  · next admitted =>
    rcases bind_eq_error.mp failed with failed | ⟨⟨records, behind⟩, _, failed⟩
    · -- Some records are read, and the next one fails.
      obtain ⟨k, few, records, c', read₃, failed⟩ := many_eq_error.mp failed
      obtain ⟨front, rfl, spelled, passes₃⟩ := (many_decode_eq_ok outside').mp read₃
      have all := passes.append passes₃
      rcases decode_fault_cases failed with ⟨_, reports⟩ | ⟨code, rest, bytes, reports⟩
      · exact .inl (reports.behind all)
      · have offset : c.offset = start.offset + 8 := passes.2.1
        have missing := (exists_decode_eq_error (passes₃.2.2.trans outside')).mp ⟨f, failed⟩
        rw [bytes] at missing
        have left : c.rest = front ++ code :: rest := by rw [passes₃.1, bytes]
        refine .inr ⟨_, ⟨code⟩, ⟨count, size, front, rest, records, ?_, ?_, few, ?_, rfl,
          missing⟩,
          reports.opcode, ?_⟩
        · rw [passes₁.1, passes₂.1, left]
        · intro guarded
          simpa [admits, guarded, remaining, left] using admitted
        · rwa [← offset]
        · have high := reports.high
          have remaining := all.remaining
          have offset' := all.2.1
          simp only [Cursor.remaining, bytes, List.length_cons] at high remaining
          simp only [Cursor.remaining]
          omega
    · dsimp only at failed
      split at failed
      · cases failed
        exact .inl ((reports_error sized _).behind passes₁)
      · cases failed

/-- Where a stream breaks off, reading it fails behind the opcode of the record, and with it. -/
theorem BreaksOff.exists_error {place : Nat} {opcode : Opcode} (outside : start.opcode = none)
    (breaks : BreaksOff r start.offset start.rest place opcode) :
    ∃ f, decodeStream r start = .error f ∧ f.opcode = some opcode ∧ place < f.offset := by
  obtain ⟨count, size, front, rest, records, whole, room, few, spelled, rfl, missing⟩ := breaks
  -- The cursors behind the two words and behind the records.
  let sized : Cursor := ⟨none, start.offset + 4, Bytes.u32 size ++ (front ++ opcode.code :: rest)⟩
  let c : Cursor := ⟨none, start.offset + 8, front ++ opcode.code :: rest⟩
  let c' : Cursor := ⟨none, start.offset + 8 + front.length, opcode.code :: rest⟩
  have read₁ := (Reads.u32 start count sized).mpr ⟨_, rfl, whole, rfl, outside.symm⟩
  have read₂ := (Reads.u32 sized size c).mpr ⟨_, rfl, rfl, rfl, rfl⟩
  have read₃ : many (decode r) records.length c = .ok (records, c') :=
    (many_decode_eq_ok rfl).mpr ⟨front, rfl, spelled, rfl, rfl, rfl⟩
  have fails : ∃ f, decode r c' = .error f := (exists_decode_eq_error rfl).mpr missing
  obtain ⟨f, failed⟩ := fails
  refine ⟨f, ?_, ?_⟩
  · have admitted : c.admits r count.toNat minSize = true := by
      cases guarded : r.guarded with
      | false => simp [admits, guarded]
      | true => exact admits_of_le (room guarded)
    simp only [decodeStream, bind_eq_error, Prod.exists]
    refine .inr ⟨count, sized, read₁, .inr ⟨size, c, read₂, ?_⟩⟩
    rw [admitted]
    exact bind_eq_error.mpr (.inl (many_eq_error.mpr ⟨_, few, records, c', read₃, failed⟩))
  · rcases decode_fault_cases failed with ⟨empty, _⟩ | ⟨code, rest', bytes, reports⟩
    · cases empty
    · cases bytes
      exact ⟨reports.opcode, reports.low⟩

end Command

/-! ### Charts -/

/-- Faults of a header are found in it, before there is any record. -/
theorem Header.accounts_decode (bytes : List UInt8) :
    (Cursor.ofBytes bytes).Accounts (Header.decode (Cursor.ofBytes bytes)) := by
  refine (located_u32 _).bind Reads.u32 fun version _ c₁ passes₁ => ?_
  refine Accounts.next ?_ fun _ _ => Accounts.behind ?_ passes₁
  · -- An unsupported version is reported at the front, where the header begins.
    dsimp only [checkVersion]
    split
    · exact accounts_ok _
    · exact accounts_error _
  · refine (located_u8 c₁).bind Reads.u8 fun flags _ c₂ passes₂ => Accounts.behind ?_ passes₂
    dsimp only
    split
    · refine (located_i32 c₂).bind Reads.i32 fun _ _ c₃ passes₃ => Accounts.behind ?_ passes₃
      exact (located_u32 c₃).next fun _ _ => accounts_ok _
    · exact accounts_ok _

namespace Label

theorem located_decode (r : Reading) (commands : Nat) : Located (decode r commands) := by
  intro start
  refine (located_text r start).bind (Reads.text r) fun name _ c passes => ?_
  refine ((located_u32 c).behind passes).next fun step _ => ?_
  dsimp only
  split
  · exact accounts_error _
  · exact accounts_ok _

theorem located_decodeTable (r : Reading) (commands : Nat) : Located (decodeTable r commands) := by
  intro start
  refine (located_u32 start).bind Reads.u32 fun count _ c passes => ?_
  dsimp only
  split
  · exact accounts_error _
  · exact (located_many (located_decode r commands) (reads_decode r commands) _ c).behind passes

end Label

namespace Chart

variable {r : Reading} {bytes : List UInt8} {f : FormatError}

/-- A body that cannot be put in order is reported where it begins. -/
theorem accounts_openBody {h : Header} {c : Cursor} (outside : c.opcode = none) :
    c.Accounts (openBody h c) := by
  rw [openBody]
  split
  · refine Accounts.next ?_ fun _ _ => accounts_ok _
    rw [Shuffle.plan]
    split
    · rw [← outside]
      exact accounts_error _
    · exact accounts_ok _
  · exact accounts_ok _

/-- Reading a chart breaks off inside a record: its header can be read and its body be put in order,
and the command stream there breaks off. -/
def BreaksOff (r : Reading) (bytes : List UInt8) (place : Nat) (opcode : Opcode) : Prop :=
  ∃ header head body stored, Header.Spelled head header ∧ header.Stores body stored ∧
    bytes = head ++ stored ∧ Command.BreaksOff r head.length body place opcode

/-- A chart that cannot be read has a fault within its bytes, which has an opcode only where reading
breaks off inside a record. -/
theorem decodeLayout_fault_cases (failed : decodeLayout r bytes = .error f) :
    f.offset ≤ bytes.length ∧
      ∀ opcode, f.opcode = some opcode → ∃ place, BreaksOff r bytes place opcode := by
  rw [decodeLayout_eq] at failed
  rcases bind_eq_error.mp failed with failed | ⟨⟨header, c⟩, read, failed⟩
  · obtain ⟨outside, _, high⟩ := Header.accounts_decode bytes f failed
    refine ⟨high.trans (Nat.zero_add _).le, fun opcode named => ?_⟩
    cases named.symm.trans outside
  obtain ⟨head, spelled, whole, offset, outside⟩ := (Header.reads_decode _ _ _).mp read
  have whole : bytes = head ++ c.rest := whole
  have offset : c.offset = head.length := offset.trans (Nat.zero_add _)
  have outside : c.opcode = none := outside
  -- A fault that is reported from behind the header lies outside any record.
  have plain : ∀ {body : List UInt8}, body.length = c.rest.length →
      Reports { c with rest := body } f → f.offset ≤ bytes.length ∧
        ∀ opcode, f.opcode = some opcode → ∃ place, BreaksOff r bytes place opcode := by
    intro body length reports
    have high := reports.high
    simp only [remaining, length, offset] at high
    refine ⟨?_, fun opcode named => ?_⟩
    · rw [whole, List.length_append]
      exact high
    · cases named.symm.trans (reports.opcode.trans outside)
  rcases bind_eq_error.mp failed with failed | ⟨body, opened, failed⟩
  · exact plain rfl (accounts_openBody outside f failed)
  have stores := openBody_eq_ok.mp opened
  have length := stores.length_eq.symm
  rcases bind_eq_error.mp failed with failed | ⟨⟨records, atLabels⟩, read₂, failed⟩
  · rcases Command.decodeStream_fault_cases (by exact outside) failed with reports | ⟨place, opcode,
      breaks, named, high⟩
    · exact plain length reports
    · simp only [remaining, length, offset] at high breaks
      refine ⟨?_, fun opcode' named' => ?_⟩
      · rw [whole, List.length_append]
        exact high
      · cases named.symm.trans named'
        exact ⟨place, header, head, body, c.rest, spelled, stores, whole, breaks⟩
  obtain ⟨stream, _, passes₂⟩ := (Command.decodeStream_eq_ok (by exact outside)).mp read₂
  rcases bind_eq_error.mp failed with failed | ⟨⟨labels, behind⟩, read₃, failed⟩
  · exact plain length ((Label.located_decodeTable r _ atLabels).behind passes₂ f failed)
  obtain ⟨table, _, passes₃⟩ := (Label.reads_decodeTable r _ _ _ _).mp read₃
  rcases bind_eq_error.mp failed with failed | ⟨_, _, ⟨⟩⟩
  exact plain length ((accounts_finish behind).behind (passes₂.append passes₃) f failed)

/-- Where reading breaks off inside a record, it fails behind the opcode of the record, and with
it. -/
theorem BreaksOff.exists_error {place : Nat} {opcode : Opcode}
    (breaks : BreaksOff r bytes place opcode) :
    ∃ f, decodeLayout r bytes = .error f ∧ f.opcode = some opcode ∧ place < f.offset := by
  obtain ⟨header, head, body, stored, spelled, stores, rfl, breaks⟩ := breaks
  let c : Cursor := ⟨none, head.length, stored⟩
  have read : Header.decode (Cursor.ofBytes (head ++ stored)) = .ok (header, c) :=
    (Header.reads_decode _ _ _).mpr ⟨head, spelled, rfl, (Nat.zero_add _).symm, rfl⟩
  have opened : openBody header c = .ok body := openBody_eq_ok.mpr stores
  have streamed : Command.BreaksOff r (Cursor.offset { c with rest := body })
    (Cursor.rest { c with rest := body }) place opcode := breaks
  obtain ⟨f, failed, found⟩ := streamed.exists_error rfl
  refine ⟨f, ?_, found⟩
  simp only [decodeLayout_eq, bind_eq_error, Prod.exists]
  exact .inr ⟨header, c, read, .inr ⟨body, opened, .inl failed⟩⟩

/-- The fault of a chart that breaks off inside a record is found behind the opcode and has it. -/
theorem BreaksOff.of_error {place : Nat} {opcode : Opcode} (breaks : BreaksOff r bytes place opcode)
    (failed : decodeLayout r bytes = .error f) : f.opcode = some opcode ∧ place < f.offset := by
  obtain ⟨f', failed', found⟩ := breaks.exists_error
  cases failed.symm.trans failed'
  exact found

/-- Every fault of a chart lies within its bytes. It has an opcode exactly when reading breaks off
inside a record that begins with this opcode, and then it lies behind the place where the record
begins. A record without a schema has no faults, as long as all of it is there. -/
theorem fault_located (r : Reading) :
    (∀ bytes f, decodeLayout r bytes = .error f →
      f.offset ≤ bytes.length ∧
      (∀ opcode, f.opcode = some opcode ↔ ∃ place, BreaksOff r bytes place opcode) ∧
      ∀ place opcode, BreaksOff r bytes place opcode → place < f.offset) ∧
    ∀ (opcode : Opcode) (offset : Nat) (indent : UInt32) (flags : UInt8) (length : UInt32)
      (rest : List UInt8), opcode.schema? = none → length.toNat ≤ rest.length →
      Command.decode r ⟨none, offset,
          opcode.code :: (Bytes.u32 indent ++ flags :: (Bytes.u32 length ++ rest))⟩ =
        .ok ((⟨opcode, indent, flags, .raw (rest.take length.toNat)⟩,
            ⟨offset, offset + Command.minSize, offset + Command.minSize + length.toNat⟩),
          ⟨none, offset + Command.minSize + length.toNat, rest.drop length.toNat⟩) := by
  constructor
  · intro bytes f failed
    obtain ⟨inside, broken⟩ := decodeLayout_fault_cases failed
    refine ⟨inside, fun opcode => ⟨broken opcode, ?_⟩, fun place opcode breaks => ?_⟩
    · rintro ⟨place, breaks⟩
      exact (breaks.of_error failed).1
    · exact (breaks.of_error failed).2
  · intro opcode offset indent flags length rest schemaless present
    exact Command.decode_raw schemaless r offset indent flags present

/-- The bytes of the sample, with a flag of its menu that is neither zero nor one. -/
def faultyBytes : List UInt8 :=
  sampleBytes.set 128 2

set_option maxRecDepth 10000 in
/-- The bad flag is found in the plain image, although it stands further back in the shuffled one,
and the fault has the opcode of the menu. -/
theorem fault_located_sample :
    decodeLayout ⟨.cp932, true⟩ faultyBytes = .error ⟨some .menu, 100, .badFlag 2⟩ ∧
      100 ≤ faultyBytes.length ∧
      (∃ place, BreaksOff ⟨.cp932, true⟩ faultyBytes place .menu ∧ place < 100) ∧
      Command.decode ⟨.cp932, true⟩ ⟨none, 86, [9, 0, 0, 0, 0, 0, 2, 0, 0, 0, 255, 1, 7]⟩ =
        .ok ((⟨⟨9⟩, 0, 0, .raw [255, 1]⟩, ⟨86, 96, 98⟩), ⟨none, 98, [7]⟩) := by
  have failed : decodeLayout ⟨.cp932, true⟩ faultyBytes =
      .error ⟨some .menu, 100, .badFlag 2⟩ := by
    rfl
  obtain ⟨located, raw⟩ := fault_located ⟨.cp932, true⟩
  obtain ⟨inside, named, behind⟩ := located _ _ failed
  obtain ⟨place, breaks⟩ := (named .menu).mp rfl
  exact ⟨failed, inside, ⟨place, breaks, behind place .menu breaks⟩,
    raw ⟨9⟩ 86 0 0 2 [255, 1, 7] rfl (by decide)⟩

end Chart

end NovelChart
