import Mathlib.Algebra.Ring.Nat
import NovelChart.Bytes.Cursor

/-!
# Byte formats and the readers that accept them

A format says which byte strings stand for which values, without reference to any reader. A reader
is matched against a format by one equivalence, `Reads`: it returns a value exactly when bytes of
the format stand at the cursor, and then the cursor moves behind just these bytes. Both halves
matter. One says that nothing outside the format is accepted, the other that nothing inside is
refused, whatever follows.

## Main definitions

* `Cursor.Passes`: some bytes stand at a cursor, and another cursor is the one behind them
* `Format`, `Format.Many`: byte strings and the values they stand for, and sequences of them
* `Reads`: a reader accepts exactly a format
-/

namespace NovelChart

section Outcomes

variable {ε ε' α β : Type}

/-- A sequence of two computations succeeds when both do. -/
theorem bind_eq_ok {m : Except ε α} {f : α → Except ε β} {y : β} :
    (m >>= f) = .ok y ↔ ∃ x, m = .ok x ∧ f x = .ok y := by
  cases m with
  | error e => simp [bind, Except.bind]
  | ok x => simp [bind, Except.bind]

theorem pure_eq_ok {x y : α} : (pure x : Except ε α) = .ok y ↔ x = y := by
  simp [pure, Except.pure]

/-- Renaming errors does not touch results. -/
theorem mapError_eq_ok {m : Except ε α} {f : ε → ε'} {y : α} :
    m.mapError f = .ok y ↔ m = .ok y := by
  cases m <;> simp [Except.mapError]

variable {p : Prop} [Decidable p] {e : ε} {m : Except ε α} {y : α}

/-- What is refused under a condition succeeds only where the condition fails. -/
theorem refuse_eq_ok : (if p then .error e else m) = .ok y ↔ ¬p ∧ m = .ok y := by
  by_cases h : p <;> simp [h]

theorem refuse_bind_eq_ok {f : β → Except ε α} :
    (if p then (.error e : Except ε β) >>= f else m) = .ok y ↔ ¬p ∧ m = .ok y :=
  refuse_eq_ok

end Outcomes

section Lookup

variable {κ ν : Type} [BEq κ] [LawfulBEq κ] {values : List (κ × ν)} {i : κ} {value : ν}

/-- Where no key is taken twice, looking up is membership. -/
theorem lookup_eq_some_iff (distinct : (values.map Prod.fst).Nodup) :
    values.lookup i = some value ↔ (i, value) ∈ values := by
  induction values with
  | nil => simp
  | cons first rest ih =>
    obtain ⟨j, other⟩ := first
    obtain ⟨fresh, distinct⟩ := List.nodup_cons.mp distinct
    by_cases eq : i = j
    · -- The first value under this key is the only one.
      subst eq
      have absent : (i, value) ∉ rest := fun member => fresh (List.mem_map.mpr ⟨_, member, rfl⟩)
      simp [absent, eq_comm]
    · have ne : (i == j) = false := beq_false_of_ne eq
      simp [List.lookup_cons, ne, eq, ih distinct]

theorem lookup_isSome_iff : (values.lookup i).isSome = true ↔ i ∈ values.map Prod.fst := by
  induction values with
  | nil => simp
  | cons first rest ih =>
    obtain ⟨j, other⟩ := first
    by_cases eq : i = j
    · simp [eq]
    · have ne : (i == j) = false := beq_false_of_ne eq
      rw [List.lookup_cons, ne, List.map_cons, List.mem_cons, ih]
      simp [eq]

end Lookup

/-! ### Lists that are cut -/

/-- A list cut in front of one of its places, or at its end. -/
theorem exists_cut {α : Type} {l : List α} {index : Nat} (inside : index ≤ l.length) :
    ∃ front back, l = front ++ back ∧ front.length = index :=
  ⟨l.take index, l.drop index, (List.take_append_drop index l).symm, by simp [inside]⟩

/-- A list cut around one of its places. -/
theorem exists_cut_at {α : Type} {l : List α} {x : α} {index : Nat}
    (found : l[index]? = some x) :
    ∃ front back, l = front ++ x :: back ∧ front.length = index := by
  obtain ⟨inside, here⟩ := List.getElem?_eq_some_iff.mp found
  refine ⟨l.take index, l.drop (index + 1), ?_, by simp; omega⟩
  rw [← here, List.getElem_cons_drop, List.take_append_drop]

theorem insertIdx_at_cut {α : Type} (front back : List α) (x : α) :
    (front ++ back).insertIdx front.length x = front ++ x :: back := by
  induction front with
  | nil => simp
  | cons y front ih => simp [ih]

theorem mem_cut {α : Type} {front back : List α} {x y : α} :
    y ∈ front ++ x :: back ↔ y = x ∨ y ∈ front ++ back := by
  rw [List.mem_append, List.mem_cons, or_left_comm, List.mem_append]

theorem eraseIdx_at_cut {α : Type} (front back : List α) (x : α) :
    (front ++ x :: back).eraseIdx front.length = front ++ back := by
  simp [List.eraseIdx_append_of_length_le]

/-- An element of two lists side by side is in one of them. -/
theorem append_cut {α : Type} {xs ys front back : List α} {x : α}
    (same : xs ++ ys = front ++ x :: back) :
    (∃ mid, xs = front ++ x :: mid ∧ back = mid ++ ys) ∨
      ∃ mid, front = xs ++ mid ∧ ys = mid ++ x :: back := by
  rcases List.append_eq_append_iff.mp same with ⟨mid, first, second⟩ | ⟨mid, first, second⟩
  · exact .inr ⟨mid, first, second⟩
  · rcases List.cons_eq_append_iff.mp second with ⟨rfl, rfl⟩ | ⟨mid, rfl, rfl⟩
    · exact .inr ⟨[], by rw [first, List.append_nil, List.append_nil], rfl⟩
    · exact .inl ⟨mid, first, rfl⟩

theorem pairwise_zipIdx {α : Type} (l : List α) (n : Nat) :
    (l.zipIdx n).Pairwise fun x y => x.2 < y.2 := by
  induction l generalizing n with
  | nil => exact .nil
  | cons x l ih =>
    rw [List.zipIdx_cons, List.pairwise_cons]
    exact ⟨fun y member => List.le_snd_of_mem_zipIdx member, ih (n + 1)⟩

theorem modify_append_right {α : Type} (front back : List α) (i : Nat) (f : α → α) :
    (front ++ back).modify (front.length + i) f = front ++ back.modify i f := by
  induction front with
  | nil => rw [List.length_nil, Nat.zero_add, List.nil_append, List.nil_append]
  | cons x front ih =>
    rw [List.cons_append, List.length_cons, Nat.add_right_comm, List.modify_succ_cons, ih]
    rfl

theorem modify_at_cut {α : Type} (front back : List α) (x : α) (f : α → α) :
    (front ++ x :: back).modify front.length f = front ++ f x :: back :=
  modify_append_right front (x :: back) 0 f

/-! ### Little-endian words -/

namespace Bytes

theorem toNatLE_lt (bytes : List UInt8) : toNatLE bytes < 256 ^ bytes.length := by
  induction bytes with
  | nil => simp [toNatLE]
  | cons b rest ih =>
    have low := b.toNat_lt
    rw [toNatLE, List.length_cons, Nat.pow_succ]
    omega

/-- Bytes are the digits of their value. -/
theorem ofNatLE_toNatLE (bytes : List UInt8) : ofNatLE bytes.length (toNatLE bytes) = bytes := by
  induction bytes with
  | nil => rfl
  | cons b rest ih =>
    have low := b.toNat_lt
    have quotient : (b.toNat + 256 * toNatLE rest) / 256 = toNatLE rest := by omega
    rw [toNatLE, List.length_cons, ofNatLE, quotient, ih]
    congr 1
    apply UInt8.toNat_inj.mp
    rw [UInt8.toNat_ofNat']
    omega

/-- Reading the digits of a number gives it back, as far as the width reaches. -/
theorem toNatLE_ofNatLE (width n : Nat) : toNatLE (ofNatLE width n) = n % 256 ^ width := by
  induction width generalizing n with
  | zero => simp [ofNatLE, toNatLE, Nat.mod_one]
  | succ width ih =>
    -- The lowest byte and the higher ones wrap around on their own.
    have split : n % (256 * 256 ^ width) = n % 256 + 256 * (n / 256 % 256 ^ width) := Nat.mod_mul
    rw [Nat.pow_succ', split, ofNatLE, toNatLE, ih, UInt8.toNat_ofNat']

@[simp] theorem length_u32 (n : UInt32) : (u32 n).length = 4 :=
  length_ofNatLE 4 n.toNat

@[simp] theorem length_i32 (n : Int32) : (i32 n).length = 4 :=
  length_u32 _

@[simp] theorem length_u64 (n : UInt64) : (u64 n).length = 8 :=
  length_ofNatLE 8 n.toNat

@[simp] theorem length_count (n : Nat) : (count n).length = 4 :=
  length_u32 _

@[simp] theorem length_counted (bytes : List UInt8) :
    (counted bytes).length = 4 + bytes.length := by
  simp [counted]

/-- Four bytes spell a word exactly when they are the bytes that it writes. -/
theorem ofNat_toNatLE_eq_iff {bytes : List UInt8} {n : UInt32} (four : bytes.length = 4) :
    UInt32.ofNat (toNatLE bytes) = n ↔ bytes = u32 n := by
  constructor
  · rintro rfl
    -- The value of four bytes fits a word, so that the conversion loses nothing.
    have bound := toNatLE_lt bytes
    rw [four] at bound
    rw [u32, UInt32.toNat_ofNat_of_lt' bound]
    exact four ▸ (ofNatLE_toNatLE bytes).symm
  · rintro rfl
    have low : n.toNat < 256 ^ 4 := n.toNat_lt
    rw [u32, toNatLE_ofNatLE, Nat.mod_eq_of_lt low, UInt32.ofNat_toNat]

/-- Eight bytes spell a pattern exactly when they are the bytes that it writes. -/
theorem ofNat_toNatLE_eq_iff_u64 {bytes : List UInt8} {n : UInt64} (eight : bytes.length = 8) :
    UInt64.ofNat (toNatLE bytes) = n ↔ bytes = u64 n := by
  constructor
  · rintro rfl
    have bound := toNatLE_lt bytes
    rw [eight] at bound
    rw [u64, UInt64.toNat_ofNat_of_lt' bound]
    exact eight ▸ (ofNatLE_toNatLE bytes).symm
  · rintro rfl
    have low : n.toNat < 256 ^ 8 := n.toNat_lt
    rw [u64, toNatLE_ofNatLE, Nat.mod_eq_of_lt low, UInt64.ofNat_toNat]

/-- A word is the count of its own value. -/
theorem count_toNat (n : UInt32) : count n.toNat = u32 n := by
  rw [count, UInt32.ofNat_toNat]

/-- A signed word that is not negative is the count of its own value. -/
theorem i32_eq_count {n : Int32} (nonneg : ¬n < 0) : i32 n = count n.toInt.toNat := by
  have value : n.toUInt32.toNat = n.toInt.toNat :=
    Int32.toNat_toUInt32_of_le (Int32.not_lt.mp nonneg)
  rw [count, ← value, UInt32.ofNat_toNat, i32]

end Bytes

/-! ### Cursors -/

namespace Cursor

variable {c c₁ c₂ : Cursor} {bytes more : List UInt8}

/-- The bytes stand at the cursor, and `c'` is the cursor behind them. -/
def Passes (c : Cursor) (bytes : List UInt8) (c' : Cursor) : Prop :=
  c.rest = bytes ++ c'.rest ∧ c'.offset = c.offset + bytes.length ∧ c'.opcode = c.opcode

@[simp] theorem passes_nil : c.Passes [] c₁ ↔ c₁ = c := by
  obtain ⟨opcode, offset, rest⟩ := c
  obtain ⟨opcode₁, offset₁, rest₁⟩ := c₁
  simp only [Passes, List.nil_append, List.length_nil, Nat.add_zero, Cursor.mk.injEq]
  constructor
  · rintro ⟨same, behind, kept⟩
    exact ⟨kept, behind, same.symm⟩
  · rintro ⟨kept, behind, same⟩
    exact ⟨same.symm, behind, kept⟩

theorem Passes.append (first : c.Passes bytes c₁) (second : c₁.Passes more c₂) :
    c.Passes (bytes ++ more) c₂ := by
  obtain ⟨rest₁, offset₁, opcode₁⟩ := first
  obtain ⟨rest₂, offset₂, opcode₂⟩ := second
  refine ⟨?_, ?_, opcode₂.trans opcode₁⟩
  · rw [rest₁, rest₂, List.append_assoc]
  · rw [offset₂, offset₁, List.length_append, Nat.add_assoc]

/-- Passing two byte strings in a row is passing one after the other. -/
theorem passes_append :
    c.Passes (bytes ++ more) c₂ ↔ ∃ c₁, c.Passes bytes c₁ ∧ c₁.Passes more c₂ := by
  constructor
  · rintro ⟨rest, offset, opcode⟩
    -- The cursor in between is determined by what it stands behind and in front of.
    refine ⟨⟨c.opcode, c.offset + bytes.length, more ++ c₂.rest⟩, ⟨?_, rfl, rfl⟩, rfl, ?_, opcode⟩
    · rw [rest, List.append_assoc]
    · rw [offset, List.length_append, Nat.add_assoc]
  · rintro ⟨c₁, first, second⟩
    exact first.append second

/-- Passing one byte and then others. -/
theorem passes_cons {b : UInt8} :
    c.Passes (b :: more) c₂ ↔ ∃ c₁, c.Passes [b] c₁ ∧ c₁.Passes more c₂ := by
  rw [← List.singleton_append, passes_append]

theorem Passes.remaining (passes : c.Passes bytes c₁) :
    c.remaining = bytes.length + c₁.remaining := by
  rw [Cursor.remaining, passes.1, List.length_append, Cursor.remaining]

/-- Bytes are passed alike under any opcode. -/
theorem Passes.withOpcode (passes : c.Passes bytes c₁) (opcode : Option Opcode) :
    Passes { c with opcode } bytes { c₁ with opcode } :=
  ⟨passes.1, passes.2.1, rfl⟩

/-- What is left at a cursor can be passed, and then nothing is left. -/
theorem passes_rest (c : Cursor) : c.Passes c.rest ⟨c.opcode, c.offset + c.rest.length, []⟩ :=
  ⟨(List.append_nil _).symm, rfl, rfl⟩

/-- Nothing is left over exactly at the end. -/
theorem finish_eq_ok : c.finish = .ok () ↔ c.rest = [] := by
  cases eq : c.rest with
  | nil => simp [finish, isEmpty, eq]
  | cons b rest => simp [finish, isEmpty, eq]

/-- A count is admitted when its elements have room, whether or not the reading asks. -/
theorem admits_of_le {r : Reading} {n size : Nat} (room : n * size ≤ c.remaining) :
    c.admits r n size = true := by
  simp [admits, room]

end Cursor

/-! ### Formats and readers -/

/-- A byte format: which byte strings stand for which values. -/
abbrev Format (α : Type) := List UInt8 → α → Prop

/-- The format of several values, one after the other. -/
inductive Format.Many {α : Type} (F : Format α) : Format (List α)
  | nil : Many F [] []
  | cons {bytes : List UInt8} {x : α} {more : List UInt8} {xs : List α} :
      F bytes x → Many F more xs → Many F (bytes ++ more) (x :: xs)

/-- A reader accepts exactly the byte strings of a format and moves behind them. -/
def Reads {α : Type} (read : Cursor → Except FormatError (Step α)) (F : Format α) : Prop :=
  ∀ c x c', read c = .ok (x, c') ↔ ∃ bytes, F bytes x ∧ c.Passes bytes c'

namespace Format

variable {α : Type} {F : Format α} {bytes more : List UInt8} {xs ys : List α}

/-- Several values, each of a least size, take that many times as many bytes. -/
theorem Many.length_le {size : Nat} (least : ∀ bytes x, F bytes x → size ≤ bytes.length)
    (many : F.Many bytes xs) : xs.length * size ≤ bytes.length := by
  induction many with
  | nil => simp
  | cons first _ ih =>
    have here := least _ _ first
    rw [List.length_cons, List.length_append, Nat.succ_mul]
    omega

/-- Every value of a sequence has bytes of its own. -/
theorem Many.spelled {x : α} (many : F.Many bytes xs) (member : x ∈ xs) :
    ∃ bytes, F bytes x := by
  induction many with
  | nil => cases member
  | cons first _ ih =>
    rcases List.mem_cons.mp member with rfl | later
    · exact ⟨_, first⟩
    · exact ih later

theorem Many.singleton {x : α} (spelled : F bytes x) : F.Many bytes [x] := by
  have many : F.Many (bytes ++ []) [x] := .cons spelled .nil
  rwa [List.append_nil] at many

theorem Many.append (first : F.Many bytes xs) (second : F.Many more ys) :
    F.Many (bytes ++ more) (xs ++ ys) := by
  induction first with
  | nil => exact second
  | cons spelled _ ih =>
    rw [List.append_assoc]
    exact .cons spelled ih

end Format

namespace Reads

open Cursor

/-- Bytes of a format that some reader accepts stand for one value only. -/
theorem unique {α : Type} {read : Cursor → Except FormatError (Step α)} {F : Format α}
    (reads : Reads read F) {bytes : List UInt8} {x y : α} (one : F bytes x) (other : F bytes y) :
    x = y := by
  have passes : (Cursor.ofBytes bytes).Passes bytes ⟨none, 0 + bytes.length, []⟩ :=
    ⟨(List.append_nil _).symm, rfl, rfl⟩
  have first := (reads _ _ _).mpr ⟨bytes, one, passes⟩
  have second := (reads _ _ _).mpr ⟨bytes, other, passes⟩
  exact congrArg Prod.fst (Except.ok.inj (first.symm.trans second))

/-- A number of bytes, taken as they stand. -/
theorem take (n : Nat) :
    Reads (fun c => c.take n) fun bytes x => bytes = x ∧ x.length = n := by
  intro c x c'
  simp only [Cursor.take]
  constructor
  · intro read
    split at read
    · next enough =>
      cases read
      refine ⟨_, ⟨rfl, List.length_take_of_le enough⟩, ?_, ?_, rfl⟩
      · exact (List.take_append_drop n c.rest).symm
      · rw [List.length_take_of_le enough]
        rfl
    · cases read
  · rintro ⟨_, ⟨rfl, rfl⟩, rest, offset, opcode⟩
    -- There are enough bytes, since these are there.
    rw [if_pos (by rw [Cursor.remaining, rest, List.length_append]; omega)]
    simp only [Cursor.skip, rest, List.take_left', List.drop_left', ← opcode, ← offset]

theorem u8 : Reads Cursor.u8 fun bytes b => bytes = [b] := by
  intro c b c'
  obtain ⟨opcode, offset, rest⟩ := c
  obtain ⟨opcode', offset', rest'⟩ := c'
  cases rest with
  | nil => simp [Cursor.u8, Passes]
  | cons a rest =>
    simp only [Cursor.u8, Passes, Except.ok.injEq, Prod.mk.injEq, Cursor.mk.injEq,
      exists_eq_left, List.cons_append, List.nil_append, List.cons.injEq, List.length_singleton]
    grind

theorem u32 : Reads Cursor.u32 fun bytes n => bytes = Bytes.u32 n := by
  intro c n c'
  simp only [Cursor.u32, bind_eq_ok, pure_eq_ok, Prod.exists, take 4 _ _ _, Prod.mk.injEq]
  constructor
  · intro read
    obtain ⟨_, _, ⟨bytes, ⟨rfl, four⟩, passes⟩, word, rfl⟩ := read
    exact ⟨bytes, (Bytes.ofNat_toNatLE_eq_iff four).mp word, passes⟩
  · intro spelled
    obtain ⟨_, rfl, passes⟩ := spelled
    have four := Bytes.length_u32 n
    exact ⟨_, c', ⟨_, ⟨rfl, four⟩, passes⟩, (Bytes.ofNat_toNatLE_eq_iff four).mpr rfl, rfl⟩

theorem i32 : Reads Cursor.i32 fun bytes n => bytes = Bytes.i32 n := by
  intro c n c'
  simp only [Cursor.i32, bind_eq_ok, pure_eq_ok, Prod.exists, u32 _ _ _, Prod.mk.injEq]
  constructor
  · intro read
    obtain ⟨word, _, ⟨_, rfl, passes⟩, rfl, rfl⟩ := read
    exact ⟨_, by rw [Bytes.i32, UInt32.toUInt32_toInt32], passes⟩
  · intro spelled
    obtain ⟨_, rfl, passes⟩ := spelled
    exact ⟨n.toUInt32, c', ⟨_, rfl, passes⟩, Int32.toInt32_toUInt32 n, rfl⟩

theorem u64 : Reads Cursor.u64 fun bytes n => bytes = Bytes.u64 n := by
  intro c n c'
  simp only [Cursor.u64, bind_eq_ok, pure_eq_ok, Prod.exists, take 8 _ _ _, Prod.mk.injEq]
  constructor
  · intro read
    obtain ⟨_, _, ⟨bytes, ⟨rfl, eight⟩, passes⟩, word, rfl⟩ := read
    exact ⟨bytes, (Bytes.ofNat_toNatLE_eq_iff_u64 eight).mp word, passes⟩
  · intro spelled
    obtain ⟨_, rfl, passes⟩ := spelled
    have eight := Bytes.length_u64 n
    exact ⟨_, c', ⟨_, ⟨rfl, eight⟩, passes⟩, (Bytes.ofNat_toNatLE_eq_iff_u64 eight).mpr rfl, rfl⟩

/-- A reader whose result is passed through a function. -/
theorem map {α β : Type} {read : Cursor → Except FormatError (Step α)} {F : Format α}
    (reads : Reads read F) (f : α → β) :
    Reads (fun c => do let (x, c) ← read c; return (f x, c)) fun bytes y =>
      ∃ x, F bytes x ∧ y = f x := by
  intro c y c'
  simp only [bind_eq_ok, pure_eq_ok, Prod.exists, reads _ _ _, Prod.mk.injEq]
  constructor
  · intro read
    obtain ⟨x, _, ⟨bytes, spelled, passes⟩, rfl, rfl⟩ := read
    exact ⟨bytes, ⟨x, spelled, rfl⟩, passes⟩
  · intro spelled
    obtain ⟨bytes, ⟨x, spelled, rfl⟩, passes⟩ := spelled
    exact ⟨x, c', ⟨bytes, spelled, passes⟩, rfl, rfl⟩

/-- Reading nothing accepts the empty byte string. -/
theorem nothing {α : Type} (x : α) :
    Reads (fun c => pure (x, c)) fun bytes y => bytes = [] ∧ y = x := by
  intro c y c'
  rw [pure_eq_ok, Prod.mk.injEq]
  constructor
  · rintro ⟨rfl, rfl⟩
    exact ⟨[], ⟨rfl, rfl⟩, passes_nil.mpr rfl⟩
  · intro spelled
    obtain ⟨_, ⟨rfl, rfl⟩, passes⟩ := spelled
    exact ⟨rfl, (passes_nil.mp passes).symm⟩

/-- Reading a number of values accepts that many, one after the other. -/
theorem many {α : Type} {read : Cursor → Except FormatError (Step α)} {F : Format α}
    (reads : Reads read F) (n : Nat) :
    Reads (Cursor.many read n) fun bytes xs => xs.length = n ∧ F.Many bytes xs := by
  induction n with
  | zero =>
    intro c xs c'
    simp only [Cursor.many, Except.ok.injEq, Prod.mk.injEq]
    constructor
    · rintro ⟨rfl, rfl⟩
      exact ⟨[], ⟨rfl, .nil⟩, passes_nil.mpr rfl⟩
    · intro spelled
      obtain ⟨bytes, ⟨empty, spelled⟩, passes⟩ := spelled
      cases spelled with
      | nil => exact ⟨rfl, (passes_nil.mp passes).symm⟩
      | cons => cases empty
  | succ n ih =>
    intro c xs c'
    simp only [Cursor.many, bind_eq_ok, pure_eq_ok, Prod.exists, reads _ _ _, ih _ _ _,
      Prod.mk.injEq]
    constructor
    · intro read
      obtain ⟨x, _, ⟨first, spelled, passes⟩, xs, _, ⟨more, ⟨rfl, rest⟩, passes'⟩, rfl, rfl⟩ := read
      exact ⟨first ++ more, ⟨rfl, .cons spelled rest⟩, passes.append passes'⟩
    · intro spelled
      obtain ⟨_, ⟨length, spelled⟩, passes⟩ := spelled
      cases spelled with
      | nil => cases length
      | cons first rest =>
        obtain ⟨c₁, passes₁, passes₂⟩ := passes_append.mp passes
        exact ⟨_, c₁, ⟨_, first, passes₁⟩, _, c', ⟨_, ⟨Nat.succ.inj length, rest⟩, passes₂⟩,
          rfl, rfl⟩

end Reads

/-! ### Texts -/

/-- A text with its byte count in front. -/
def Encoding.Spelled (e : Encoding) : Format String := fun bytes s =>
  ∃ body, body.length < 2 ^ 32 ∧ bytes = Bytes.counted body ∧ e.decode body = .ok s

/-- The count of a counted byte string is a word. -/
theorem Bytes.counted_eq {body : List UInt8} {n : UInt32} (length : body.length = n.toNat) :
    counted body = u32 n ++ body := by
  rw [counted, length, count_toNat]

theorem Reads.text (r : Reading) : Reads (Cursor.text r) r.encoding.Spelled := by
  intro c s c'
  simp only [Cursor.text, bind_eq_ok, Prod.exists, Reads.u32 _ _ _, refuse_bind_eq_ok,
    Reads.take _ _ _ _]
  constructor
  · intro read
    obtain ⟨n, c₁, ⟨_, rfl, passes⟩, _, body, c₂, ⟨_, ⟨rfl, length⟩, passes'⟩, decoded⟩ := read
    split at decoded
    · next decoded' =>
      cases decoded
      exact ⟨_, ⟨_, length ▸ n.toNat_lt, (Bytes.counted_eq length).symm, decoded'⟩,
        passes.append passes'⟩
    · cases decoded
  · intro spelled
    obtain ⟨_, ⟨body, small, rfl, decoded⟩, passes⟩ := spelled
    -- The count in front is the exact length, not only the length modulo a word.
    have length : body.length = (UInt32.ofNat body.length).toNat :=
      (UInt32.toNat_ofNat_of_lt' small).symm
    rw [Bytes.counted_eq length, Cursor.passes_append] at passes
    obtain ⟨c₁, passes₁, passes₂⟩ := passes
    refine ⟨_, c₁, ⟨_, rfl, passes₁⟩, ?_, body, c', ⟨_, ⟨rfl, length⟩, passes₂⟩, ?_⟩
    · rw [passes₂.remaining]
      omega
    · rw [decoded]

end NovelChart
