import NovelChart.Proofs.Encoding
import NovelChart.Value.Codec

/-!
# The byte format of values

A kind determines a format: which byte strings stand for which values. The decoder accepts exactly
this format, guarded or not, because a guard only refuses a count whose elements could not fit. The
encoder writes every value of the format with its own bytes, and what it writes is of the format as
long as the strings in the value survive.

## Main results

* `Value.reads_decode`: decoding accepts exactly the format
* `Value.Spelled.encode_eq`: a value is written with the bytes that stand for it
* `Value.spelled_of_encode`: what is written stands for the value
-/

namespace NovelChart.Value

variable {e : Encoding} {kind : Kind} {bytes : List UInt8} {v : Value} {s : String}

/-- The bytes stand for a value of the kind. -/
def Spelled (e : Encoding) : Kind → Format Value
  | .int, bytes, v => ∃ n, bytes = Bytes.i32 n ∧ v = .int n
  | .real, bytes, v => ∃ bits, bytes = Bytes.u64 bits ∧ v = .real bits
  | .flag, bytes, v => ∃ b : Bool, bytes = [if b then 1 else 0] ∧ v = .flag b
  | .str, bytes, v => ∃ s, e.Spelled bytes s ∧ v = .str s
  | .array elem, bytes, v => ∃ items body, items.length < 2 ^ 32 ∧
      Format.Many (Spelled e elem) body items ∧
      bytes = Bytes.count items.length ++ body ∧ v = .array items

/-- A value takes at least as many bytes as its kind says. -/
theorem Spelled.minSize_le (spelled : Spelled e kind bytes v) : kind.minSize ≤ bytes.length := by
  cases kind with
  | int =>
    obtain ⟨n, rfl, rfl⟩ := spelled
    simp [Kind.minSize]
  | real =>
    obtain ⟨n, rfl, rfl⟩ := spelled
    simp [Kind.minSize]
  | flag =>
    obtain ⟨b, rfl, rfl⟩ := spelled
    simp [Kind.minSize]
  | str =>
    obtain ⟨s, ⟨body, _, rfl, _⟩, rfl⟩ := spelled
    simp [Kind.minSize]
  | array elem =>
    obtain ⟨items, body, _, _, rfl, rfl⟩ := spelled
    simp [Kind.minSize]

/-! ### Decoding -/

theorem reads_flag (r : Reading) : Reads (decode r .flag) (Spelled r.encoding .flag) := by
  intro c v c'
  simp only [decode, bind_eq_ok, Prod.exists, Reads.u8 _ _ _, Spelled]
  constructor
  · intro read
    obtain ⟨b, c₁, ⟨_, rfl, passes⟩, read⟩ := read
    split at read
    · next zero =>
      cases read
      exact ⟨[0], ⟨false, rfl, rfl⟩, zero ▸ passes⟩
    · split at read
      · next one =>
        cases read
        exact ⟨[1], ⟨true, rfl, rfl⟩, one ▸ passes⟩
      · cases read
  · intro spelled
    obtain ⟨_, ⟨b, rfl, rfl⟩, passes⟩ := spelled
    refine ⟨_, c', ⟨_, rfl, passes⟩, ?_⟩
    cases b <;> rfl

theorem reads_array {r : Reading} {elem : Kind}
    (reads : Reads (decode r elem) (Spelled r.encoding elem)) :
    Reads (decode r (.array elem)) (Spelled r.encoding (.array elem)) := by
  intro c v c'
  simp only [decode, bind_eq_ok, pure_eq_ok, Prod.exists, Reads.u32 _ _ _, refuse_bind_eq_ok,
    reads.many _ _ _ _, Prod.mk.injEq, Spelled]
  constructor
  · intro read
    obtain ⟨n, c₁, ⟨_, rfl, passes⟩, _, items, c₂, ⟨body, ⟨length, many⟩, passes'⟩, rfl, rfl⟩ :=
      read
    refine ⟨_, ⟨items, body, length ▸ n.toNat_lt, many, rfl, rfl⟩, ?_⟩
    rw [length, Bytes.count_toNat]
    exact passes.append passes'
  · intro spelled
    obtain ⟨_, ⟨items, body, small, many, rfl, rfl⟩, passes⟩ := spelled
    obtain ⟨c₁, passes₁, passes₂⟩ := Cursor.passes_append.mp passes
    have length : (UInt32.ofNat items.length).toNat = items.length :=
      UInt32.toNat_ofNat_of_lt' small
    -- The items are there, so a guard that asks for their least size lets the count through.
    have room : items.length * elem.minSize ≤ c₁.remaining := by
      have least := many.length_le fun _ _ => Spelled.minSize_le
      rw [passes₂.remaining]
      omega
    refine ⟨_, c₁, ⟨_, rfl, passes₁⟩, ?_, items, c', ⟨body, ⟨length.symm, many⟩, passes₂⟩,
      rfl, rfl⟩
    rw [length, Cursor.admits_of_le room]
    decide

/-- Decoding accepts exactly the format of the kind. -/
theorem reads_decode (r : Reading) (kind : Kind) :
    Reads (decode r kind) (Spelled r.encoding kind) := by
  induction kind with
  | int => exact Reads.i32.map Value.int
  | real => exact Reads.u64.map Value.real
  | flag => exact reads_flag r
  | str => exact (Reads.text r).map Value.str
  | array elem ih => exact reads_array ih

/-! ### Encoding -/

/-- Every string in the value survives the encoding. -/
inductive Survives (e : Encoding) : Value → Prop
  | int (n : Int32) : Survives e (.int n)
  | real (bits : UInt64) : Survives e (.real bits)
  | flag (b : Bool) : Survives e (.flag b)
  | str {s : String} : e.Survives s → Survives e (.str s)
  | array {items : List Value} : (∀ v ∈ items, Survives e v) → Survives e (.array items)

/-- A text is written with the bytes that stand for it. -/
theorem encode_str (spelled : e.Spelled bytes s) (field : String) :
    (str s).encode e .str field = .ok bytes := by
  obtain ⟨body, _, rfl, decoded⟩ := spelled
  simp [encode, Encoding.write_eq_ok.mpr (Encoding.encode_of_decode decoded), bind, Except.bind,
    pure, Except.pure]

theorem encodeItems_of_many {elem : Kind}
    (encodes : ∀ {bytes v}, Spelled e elem bytes v → ∀ field, v.encode e elem field = .ok bytes)
    {items : List Value} (many : Format.Many (Spelled e elem) bytes items) (field : String)
    (i : Nat) : encodeItems e items elem field i = .ok bytes := by
  induction many generalizing i with
  | nil => rfl
  | cons first _ ih =>
    simp only [encodeItems, encodes first, ih, bind, Except.bind, pure, Except.pure]

/-- A value is written with the bytes that stand for it, whatever its slot is called. -/
theorem Spelled.encode_eq (spelled : Spelled e kind bytes v) (field : String) :
    v.encode e kind field = .ok bytes := by
  induction kind generalizing bytes v field with
  | int =>
    obtain ⟨n, rfl, rfl⟩ := spelled
    rfl
  | real =>
    obtain ⟨bits, rfl, rfl⟩ := spelled
    rfl
  | flag =>
    obtain ⟨b, rfl, rfl⟩ := spelled
    rfl
  | str =>
    obtain ⟨s, spelled, rfl⟩ := spelled
    exact encode_str spelled field
  | array elem ih =>
    obtain ⟨items, body, _, many, rfl, rfl⟩ := spelled
    simp only [encode, encodeItems_of_many ih many, bind, Except.bind, pure, Except.pure]

theorem many_of_encodeItems {elem : Kind}
    (spells : ∀ {bytes v field}, v.encode e elem field = .ok bytes → Survives e v →
      bytes.length < 2 ^ 32 → Spelled e elem bytes v)
    {items : List Value} {field : String} {i : Nat}
    (written : encodeItems e items elem field i = .ok bytes)
    (survive : ∀ v ∈ items, Survives e v) (small : bytes.length < 2 ^ 32) :
    Format.Many (Spelled e elem) bytes items := by
  induction items generalizing bytes i with
  | nil =>
    cases written
    exact .nil
  | cons v items ih =>
    simp only [encodeItems, bind_eq_ok, pure_eq_ok] at written
    obtain ⟨first, written₁, more, written₂, rfl⟩ := written
    rw [List.length_append] at small
    refine .cons ?_ ?_
    · exact spells written₁ (survive v List.mem_cons_self) (by omega)
    · exact ih written₂ (fun v member => survive v (List.mem_cons_of_mem _ member)) (by omega)

/-- What is written for a value stands for it, if its strings survive. -/
theorem spelled_of_encode {field : String} (written : v.encode e kind field = .ok bytes)
    (survives : Survives e v) (small : bytes.length < 2 ^ 32) : Spelled e kind bytes v := by
  induction kind generalizing bytes v field with
  | int =>
    cases v <;> simp only [encode, reduceCtorEq] at written
    cases written
    exact ⟨_, rfl, rfl⟩
  | real =>
    cases v <;> simp only [encode, reduceCtorEq] at written
    cases written
    exact ⟨_, rfl, rfl⟩
  | flag =>
    cases v <;> simp only [encode, reduceCtorEq] at written
    cases written
    exact ⟨_, rfl, rfl⟩
  | str =>
    cases v <;> simp only [encode, reduceCtorEq, bind_eq_ok, pure_eq_ok] at written
    obtain ⟨body, written, rfl⟩ := written
    cases survives with
    | str survives => exact ⟨_, Encoding.spelled_of_write written survives small, rfl⟩
  | array elem ih =>
    cases v <;> simp only [encode, reduceCtorEq, bind_eq_ok, pure_eq_ok] at written
    obtain ⟨body, written, rfl⟩ := written
    rw [List.length_append] at small
    cases survives with
    | array survive =>
      have many := many_of_encodeItems ih written survive (by omega)
      -- Every item takes a byte, so the count is bounded by the size.
      have fewer : _ * 1 ≤ body.length := many.length_le fun _ _ spelled =>
        Nat.le_trans elem.minSize_pos spelled.minSize_le
      exact ⟨_, body, by omega, many, rfl, rfl⟩

end NovelChart.Value
