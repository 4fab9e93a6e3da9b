import NovelChart.Proofs.Command
import NovelChart.Proofs.Shuffle

/-!
# The byte format of charts

The image of a chart is its header and its body, the body being the command stream and the label
table. A shuffled body stands in the image in its stored order. Reading accepts exactly the images,
and reports where the parts lie in the plain one; writing produces the image of every chart that was
read.

## Main definitions

* `Header.Spelled`, `Label.TableSpelled`, `Chart.BodySpelled`: the formats of the parts
* `Chart.Image`: a byte string is the image of a chart, with this layout

## Main results

* `Chart.decodeLayout_eq_ok`: reading accepts exactly the images
* `Chart.unguarded_reads_same`: refusing a count that cannot fit refuses no chart
* `Chart.rewrite_exact`: a chart that was read is written with the bytes that it was read from
* `Chart.read_written`: a canonical chart is read back from its bytes
-/

namespace NovelChart

variable {e : Encoding} {bytes : List UInt8}

/-! ### Headers -/

namespace Header

/-- Marking touches the lowest bit only. -/
theorem testBit_markScrambled (flags : UInt8) (scrambled : Bool) (i : Nat) :
    (markScrambled flags scrambled).toNat.testBit i =
      if i = 0 then scrambled else flags.toNat.testBit i := by
  have one : (1 : Nat).testBit i = decide (i = 0) := by
    cases i <;> simp [Nat.testBit_succ]
  cases scrambled with
  | true =>
    simp only [markScrambled, scrambledFlag, if_true, UInt8.toNat_or, Nat.testBit_or]
    rw [show (1 : UInt8).toNat = 1 from rfl, one]
    by_cases zero : i = 0 <;> simp [zero]
  | false =>
    have rest : ∀ i < 8, (~~~(1 : UInt8)).toNat.testBit i = !decide (i = 0) := by decide
    simp only [markScrambled, scrambledFlag, Bool.false_eq_true, if_false, UInt8.toNat_and,
      Nat.testBit_and]
    by_cases low : i < 8
    · rw [rest i low]
      by_cases zero : i = 0 <;> simp [zero]
    · -- A byte has no bit from the eighth on.
      have wide : 2 ^ 8 ≤ 2 ^ i := Nat.pow_le_pow_right (by decide) (Nat.not_lt.mp low)
      have high : flags.toNat.testBit i = false :=
        Nat.testBit_lt_two_pow (Nat.lt_of_lt_of_le flags.toNat_lt wide)
      rw [high, if_neg (by omega), Bool.false_and]

theorem isScrambled_eq_testBit (flags : UInt8) : isScrambled flags = flags.toNat.testBit 0 := by
  rw [Nat.testBit_zero, isScrambled, scrambledFlag, Bool.eq_iff_iff, bne_iff_ne, ne_eq,
    ← UInt8.toNat_inj, UInt8.toNat_and, decide_eq_true_iff]
  change ¬flags.toNat &&& 1 = 0 ↔ _
  rw [Nat.and_one_is_mod]
  omega

/-- Marking keeps flags that say already whether the body is shuffled. -/
theorem markScrambled_eq_self {flags : UInt8} {scrambled : Bool} :
    markScrambled flags scrambled = flags ↔ isScrambled flags = scrambled := by
  rw [isScrambled_eq_testBit]
  constructor
  · intro same
    have bit := testBit_markScrambled flags scrambled 0
    rwa [same, if_pos rfl] at bit
  · intro bit
    refine UInt8.toNat_inj.mp (Nat.eq_of_testBit_eq fun i => ?_)
    rw [testBit_markScrambled]
    split
    · next zero => rw [zero, bit]
    · rfl

theorem isScrambled_markScrambled (flags : UInt8) (scrambled : Bool) :
    isScrambled (markScrambled flags scrambled) = scrambled := by
  rw [isScrambled_eq_testBit, testBit_markScrambled, if_pos rfl]

/-- The bytes stand for a header of a supported version whose flags say whether the body is
shuffled. -/
def Spelled : Format Header := fun bytes h =>
  103 ≤ h.version ∧ h.version ≤ 117 ∧ isScrambled h.flags = h.scramble.isSome ∧ bytes = h.encode

theorem checkVersion_eq_ok {version : UInt32} {done : Unit} :
    checkVersion version = .ok done ↔ 103 ≤ version ∧ version ≤ 117 := by
  rw [checkVersion]
  split
  · next supported => simp [supported]
  · next unsupported =>
    refine iff_of_false (fun absurd => ?_) unsupported
    cases absurd

theorem reads_decode : Reads decode Spelled := by
  intro c h c'
  simp only [decode, bind_eq_ok, Prod.exists, Reads.u32 _ _ _, Reads.u8 _ _ _, checkVersion_eq_ok]
  constructor
  · intro read
    obtain ⟨version, c₁, ⟨_, rfl, passes₁⟩, _, ⟨low, high⟩, flags, c₂, ⟨_, rfl, passes₂⟩, read⟩ :=
      read
    split at read
    · next marked =>
      simp only [bind_eq_ok, pure_eq_ok, Prod.exists, Reads.u32 _ _ _, Reads.i32 _ _ _,
        Prod.mk.injEq] at read
      obtain ⟨chunkSize, c₃, ⟨_, rfl, passes₃⟩, seed, c₄, ⟨_, rfl, passes₄⟩, rfl, rfl⟩ := read
      refine ⟨_, ⟨low, high, marked, rfl⟩, ?_⟩
      simp only [encode, Option.isSome_some, markScrambled_eq_self.mpr marked]
      exact passes₁.append (passes₂.append (passes₃.append passes₄))
    · next unmarked =>
      cases read
      have plain : isScrambled flags = false := by simpa using unmarked
      refine ⟨_, ⟨low, high, plain, rfl⟩, ?_⟩
      simp only [encode, Option.isSome_none, markScrambled_eq_self.mpr plain]
      exact passes₁.append passes₂
  · intro spelled
    obtain ⟨_, ⟨low, high, marked, rfl⟩, passes⟩ := spelled
    obtain ⟨version, flags, scramble⟩ := h
    rw [encode, markScrambled_eq_self.mpr marked] at passes
    obtain ⟨c₁, passes₁, passes⟩ := Cursor.passes_append.mp passes
    obtain ⟨c₂, passes₂, passes⟩ := Cursor.passes_cons.mp passes
    refine ⟨version, c₁, ⟨_, rfl, passes₁⟩, (), ⟨low, high⟩, flags, c₂, ⟨_, rfl, passes₂⟩, ?_⟩
    rw [show isScrambled flags = scramble.isSome from marked]
    cases scramble with
    | none =>
      obtain rfl := Cursor.passes_nil.mp passes
      rfl
    | some params =>
      obtain ⟨c₃, passes₃, passes₄⟩ := Cursor.passes_append.mp passes
      simp only [Option.isSome_some, if_true, bind_eq_ok, pure_eq_ok, Prod.exists, Reads.u32 _ _ _,
        Reads.i32 _ _ _, Prod.mk.injEq]
      exact ⟨_, c₃, ⟨_, rfl, passes₃⟩, _, c', ⟨_, rfl, passes₄⟩, rfl, rfl⟩

end Header

/-! ### Labels -/

namespace Label

/-- The bytes stand for a label of a chart with a number of commands. -/
def Spelled (e : Encoding) (commands : Nat) : Format Label := fun bytes l =>
  ∃ name, e.Spelled name l.name ∧ l.target ≤ commands ∧ l.target < 2 ^ 32 ∧
    bytes = name ++ Bytes.count l.target

/-- The bytes stand for the label table. -/
def TableSpelled (e : Encoding) (commands : Nat) : Format (List Label) := fun bytes labels =>
  labels.length < 2 ^ 32 ∧ ∃ body, Format.Many (Spelled e commands) body labels ∧
    bytes = Bytes.count labels.length ++ body

variable {commands : Nat} {l : Label} {labels : List Label}

theorem Spelled.minSize_le (spelled : Spelled e commands bytes l) : minSize ≤ bytes.length := by
  obtain ⟨_, ⟨body, _, rfl, _⟩, _, _, rfl⟩ := spelled
  simp [minSize]

theorem reads_decode (r : Reading) (commands : Nat) :
    Reads (decode r commands) (Spelled r.encoding commands) := by
  intro c l c'
  simp only [decode, bind_eq_ok, pure_eq_ok, refuse_eq_ok, Prod.exists, Reads.text _ _ _ _,
    Reads.u32 _ _ _, Prod.mk.injEq, Nat.not_lt]
  constructor
  · intro read
    obtain ⟨name, c₁, ⟨first, spelled, passes₁⟩, target, c₂, ⟨_, rfl, passes₂⟩, inside, rfl, rfl⟩ :=
      read
    refine ⟨_, ⟨first, spelled, inside, target.toNat_lt, rfl⟩, ?_⟩
    rw [Bytes.count_toNat]
    exact passes₁.append passes₂
  · intro spelled
    obtain ⟨_, ⟨first, spelled, inside, low, rfl⟩, passes⟩ := spelled
    obtain ⟨c₁, passes₁, passes₂⟩ := Cursor.passes_append.mp passes
    have value : (UInt32.ofNat l.target).toNat = l.target := UInt32.toNat_ofNat_of_lt' low
    refine ⟨l.name, c₁, ⟨first, spelled, passes₁⟩, _, c', ⟨_, rfl, passes₂⟩, ?_, ?_, rfl⟩
    · rwa [value]
    · rw [value]

theorem reads_decodeTable (r : Reading) (commands : Nat) :
    Reads (decodeTable r commands) (TableSpelled r.encoding commands) := by
  intro c labels c'
  simp only [decodeTable, bind_eq_ok, refuse_eq_ok, Prod.exists, Reads.u32 _ _ _,
    (reads_decode r commands).many _ _ _ _]
  constructor
  · intro read
    obtain ⟨n, c₁, ⟨_, rfl, passes₁⟩, _, body, ⟨length, many⟩, passes₂⟩ := read
    refine ⟨_, ⟨length ▸ n.toNat_lt, body, many, rfl⟩, ?_⟩
    rw [length, Bytes.count_toNat]
    exact passes₁.append passes₂
  · intro spelled
    obtain ⟨_, ⟨few, body, many, rfl⟩, passes⟩ := spelled
    obtain ⟨c₁, passes₁, passes₂⟩ := Cursor.passes_append.mp passes
    have length : (UInt32.ofNat labels.length).toNat = labels.length :=
      UInt32.toNat_ofNat_of_lt' few
    have room : labels.length * minSize ≤ c₁.remaining := by
      have least := many.length_le fun _ _ => Spelled.minSize_le
      rw [passes₂.remaining]
      omega
    refine ⟨_, c₁, ⟨_, rfl, passes₁⟩, ?_, body, ⟨length.symm, many⟩, passes₂⟩
    rw [length, Cursor.admits_of_le room]
    decide

theorem encodeAll_of_many (many : Format.Many (Spelled e commands) bytes labels) :
    encodeAll e commands labels = .ok bytes := by
  induction many with
  | nil => rfl
  | cons first _ ih =>
    obtain ⟨_, ⟨name, _, rfl, decoded⟩, inside, _, rfl⟩ := first
    have written := Encoding.write_eq_ok.mpr (Encoding.encode_of_decode decoded)
    simp only [encodeAll, Nat.not_lt.mpr inside, if_false, written, ih, bind, Except.bind, pure,
      Except.pure]

theorem many_of_encodeAll (written : encodeAll e commands labels = .ok bytes)
    (survive : ∀ l ∈ labels, e.Survives l.name) (few : commands < 2 ^ 32)
    (small : bytes.length < 2 ^ 32) : Format.Many (Spelled e commands) bytes labels := by
  induction labels generalizing bytes with
  | nil =>
    cases written
    exact .nil
  | cons l labels ih =>
    simp only [encodeAll, refuse_eq_ok, bind_eq_ok, pure_eq_ok, Nat.not_lt] at written
    obtain ⟨inside, name, written₁, more, written₂, rfl⟩ := written
    simp only [List.length_append] at small
    have spelled := Encoding.spelled_of_write written₁ (survive l List.mem_cons_self) (by omega)
    refine .cons ⟨_, spelled, inside, by omega, rfl⟩ ?_
    exact ih written₂ (fun l member => survive l (List.mem_cons_of_mem _ member)) (by omega)

end Label

/-! ### Command streams -/

namespace Command

/-- The bytes stand for a command stream that begins at an offset. -/
def StreamSpelled (e : Encoding) (offset : Nat) : Format (List (Command × Span)) :=
  fun bytes records => records.length < 2 ^ 32 ∧ ∃ body, body.length < 2 ^ 32 ∧
    Records e (offset + 8) body records ∧
    bytes = Bytes.count records.length ++ Bytes.counted body

theorem decodeStream_eq_ok {r : Reading} {start c' : Cursor} {records : List (Command × Span)}
    (outside : start.opcode = none) :
    decodeStream r start = .ok (records, c') ↔ ∃ bytes,
      StreamSpelled r.encoding start.offset bytes records ∧ start.Passes bytes c' := by
  simp only [decodeStream, bind_eq_ok, pure_eq_ok, refuse_eq_ok, Prod.exists, Prod.mk.injEq,
    Reads.u32 _ _ _, ne_eq, Decidable.not_not, Bool.not_eq_true', Bool.not_eq_false]
  constructor
  · intro read
    obtain ⟨count, c₁, ⟨_, rfl, passes₁⟩, size, c₂, ⟨_, rfl, passes₂⟩, _, _, c₃, read, exact, rfl,
      rfl⟩ := read
    -- Records are read from a cursor outside any record, behind the two words.
    have outside₂ : c₂.opcode = none := passes₂.2.2.trans (passes₁.2.2.trans outside)
    obtain ⟨body, length, spelled, passes₃⟩ := (many_decode_eq_ok outside₂).mp read
    have offset₁ := passes₁.2.1
    have offset₂ := passes₂.2.1
    have offset₃ := passes₃.2.1
    rw [Bytes.length_u32] at offset₁ offset₂
    have sized : body.length = size.toNat := by omega
    have start₂ : c₂.offset = start.offset + 8 := by omega
    rw [start₂] at spelled
    refine ⟨_, ⟨length ▸ count.toNat_lt, body, sized ▸ size.toNat_lt, spelled, rfl⟩, ?_⟩
    rw [length, Bytes.count_toNat, Bytes.counted_eq sized]
    exact passes₁.append (passes₂.append passes₃)
  · intro spelled
    obtain ⟨_, ⟨few, body, small, spelled, rfl⟩, passes⟩ := spelled
    have length : (UInt32.ofNat records.length).toNat = records.length :=
      UInt32.toNat_ofNat_of_lt' few
    have sized : (UInt32.ofNat body.length).toNat = body.length := UInt32.toNat_ofNat_of_lt' small
    obtain ⟨c₁, passes₁, passes⟩ := Cursor.passes_append.mp passes
    obtain ⟨c₂, passes₂, passes₃⟩ := Cursor.passes_append.mp passes
    have outside₂ : c₂.opcode = none := passes₂.2.2.trans (passes₁.2.2.trans outside)
    have offset₁ := passes₁.2.1
    have offset₂ := passes₂.2.1
    have offset₃ := passes₃.2.1
    rw [Bytes.length_count] at offset₁ offset₂
    have start₂ : start.offset + 8 = c₂.offset := by omega
    rw [start₂] at spelled
    have room : records.length * minSize ≤ c₂.remaining := by
      have least := spelled.many.length_le fun _ _ => Spelled.minSize_le
      rw [List.length_map] at least
      rw [passes₃.remaining]
      omega
    have read := (many_decode_eq_ok outside₂).mpr ⟨body, rfl, spelled, passes₃⟩
    refine ⟨_, c₁, ⟨_, rfl, passes₁⟩, _, c₂, ⟨_, rfl, passes₂⟩, ?_, records, c', ?_, ?_, rfl, rfl⟩
    · rw [length]
      exact Cursor.admits_of_le room
    · rw [length]
      exact read
    · rw [sized]
      omega

/-- A command stream is written with the bytes that stand for it. -/
theorem StreamSpelled.encode_eq {offset : Nat} {records : List (Command × Span)}
    (spelled : StreamSpelled e offset bytes records) :
    encodeStream e (records.map Prod.fst) = .ok bytes := by
  obtain ⟨_, body, _, records, rfl⟩ := spelled
  simp only [encodeStream, encodeAll_of_many records.many, List.length_map, bind, Except.bind, pure,
    Except.pure]

end Command

/-! ### Images -/

/-- The stored body is the plain body in the order that the header asks for. -/
def Header.Stores (h : Header) (plain stored : List UInt8) : Prop :=
  match h.scramble with
  | some params => Shuffle.scramble plain params = .ok stored
  | none => stored = plain

theorem Header.Stores.length_eq {h : Header} {plain stored : List UInt8}
    (stores : h.Stores plain stored) : stored.length = plain.length := by
  rw [Header.Stores] at stores
  split at stores
  · exact (Shuffle.unscramble_of_scramble stores 0).2
  · rw [stores]

namespace Chart

/-- The bytes are the image of a chart, whose parts lie in the plain image as the layout says. -/
def Image (e : Encoding) (bytes : List UInt8) (chart : Chart) (layout : Layout) : Prop :=
  ∃ head stored stream table records,
    Header.Spelled head chart.header ∧
    chart.header.Stores (stream ++ table) stored ∧
    Command.StreamSpelled e head.length stream records ∧
    Label.TableSpelled e records.length table chart.labels ∧
    bytes = head ++ stored ∧
    chart.encoding = e ∧
    chart.commands = records.map Prod.fst ∧
    layout =
      { plain := head ++ (stream ++ table)
        header := ⟨0, head.length⟩
        records := records.map Prod.snd
        labels := ⟨head.length + stream.length, head.length + stream.length + table.length⟩ }

/-- A chart whose flags say whether its body is shuffled. -/
def marked (chart : Chart) : Chart :=
  { chart with header :=
    { chart.header with
      flags := Header.markScrambled chart.header.flags chart.header.scramble.isSome } }

theorem encode_marked (chart : Chart) : chart.marked.header.encode = chart.header.encode := by
  have same := Header.markScrambled_eq_self.mpr (Header.isScrambled_markScrambled
    chart.header.flags chart.header.scramble.isSome)
  simp only [marked, Header.encode, same]

/-- Puts the body behind a header in order. -/
def openBody (h : Header) (c : Cursor) : Except FormatError (List UInt8) :=
  match h.scramble with
  | some params => Shuffle.unscramble c.rest params c.offset
  | none => pure c.rest

theorem openBody_eq_ok {h : Header} {c : Cursor} {plain : List UInt8} :
    openBody h c = .ok plain ↔ h.Stores plain c.rest := by
  rw [openBody, Header.Stores]
  cases h.scramble with
  | some params =>
    constructor
    · intro restored
      exact (Shuffle.scramble_of_unscramble restored).1
    · intro kept
      exact (Shuffle.unscramble_of_scramble kept c.offset).1
  | none => exact pure_eq_ok

theorem decodeLayout_eq (r : Reading) (bytes : List UInt8) : decodeLayout r bytes = do
    let (header, c) ← Header.decode (Cursor.ofBytes bytes)
    let body ← openBody header c
    let (records, atLabels) ← Command.decodeStream r { c with rest := body }
    let (labels, behind) ← Label.decodeTable r records.length atLabels
    behind.finish
    return (⟨header, r.encoding, records.map (·.1), labels⟩,
      { plain := bytes.take c.offset ++ body
        header := ⟨0, c.offset⟩
        records := records.map (·.2)
        labels := ⟨atLabels.offset, behind.offset⟩ }) := by
  rw [decodeLayout]
  cases Header.decode (Cursor.ofBytes bytes) with
  | error f => rfl
  | ok step =>
    obtain ⟨header, c⟩ := step
    simp only [bind, Except.bind, openBody]
    cases header.scramble <;> rfl

/-- Reading accepts exactly the images of charts, guarded or not. -/
theorem decodeLayout_eq_ok {r : Reading} {chart : Chart} {layout : Layout} :
    decodeLayout r bytes = .ok (chart, layout) ↔ Image r.encoding bytes chart layout := by
  simp only [decodeLayout_eq, bind_eq_ok, pure_eq_ok, Prod.exists, Prod.mk.injEq,
    Header.reads_decode _ _ _, openBody_eq_ok, Label.reads_decodeTable _ _ _ _ _]
  constructor
  · intro read
    obtain ⟨header, c, ⟨head, spelled, whole, offset, outside⟩, body, stores, records, atLabels,
      read, labels, behind, ⟨table, spelled', passes'⟩, _, finished, rfl, rfl⟩ := read
    obtain ⟨stream, streamed, passes⟩ := (Command.decodeStream_eq_ok (by exact outside)).mp read
    have whole : bytes = head ++ c.rest := whole
    have offset : c.offset = head.length := offset.trans (Nat.zero_add _)
    -- Nothing is left over, so the body is the stream and the table.
    have body_eq : body = stream ++ table := by
      have rest := (passes.append passes').1
      rwa [Cursor.finish_eq_ok.mp finished, List.append_nil] at rest
    have offset₁ : atLabels.offset = c.offset + stream.length := passes.2.1
    have offset₂ := passes'.2.1
    subst body_eq
    refine ⟨head, c.rest, stream, table, records, spelled, stores, offset ▸ streamed, spelled',
      whole, rfl, rfl, ?_⟩
    rw [offset₂, offset₁, offset, whole, List.take_left']
    rfl
  · intro image
    obtain ⟨head, stored, stream, table, records, spelled, stores, streamed, spelled', rfl,
      encoding, commands, rfl⟩ := image
    -- The cursors behind the header, the stream and the table.
    let c : Cursor := ⟨none, head.length, stored⟩
    let atLabels : Cursor := ⟨none, head.length + stream.length, table⟩
    let behind : Cursor := ⟨none, head.length + stream.length + table.length, []⟩
    have passes₁ : (Cursor.ofBytes (head ++ stored)).Passes head c :=
      ⟨rfl, (Nat.zero_add _).symm, rfl⟩
    have passes₂ : Cursor.Passes { c with rest := stream ++ table } stream atLabels :=
      ⟨rfl, rfl, rfl⟩
    have passes₃ : atLabels.Passes table behind := ⟨(List.append_nil _).symm, rfl, rfl⟩
    refine ⟨chart.header, c, ⟨head, spelled, passes₁⟩, stream ++ table, stores, records, atLabels,
      (Command.decodeStream_eq_ok rfl).mpr ⟨stream, streamed, passes₂⟩, chart.labels, behind,
      ⟨table, spelled', passes₃⟩, (), Cursor.finish_eq_ok.mpr rfl, ?_, ?_⟩
    · rw [← encoding]
      exact congrArg (fun commands => Chart.mk chart.header chart.encoding commands chart.labels)
        commands.symm
    · rw [List.take_left']
      rfl

/-- Refusing a count at once, when its elements cannot fit into the bytes that are left, refuses no
chart: with and without these checks the same bytes are read, as the same chart with the same
layout. -/
theorem unguarded_reads_same (e : Encoding) (bytes : List UInt8) (chart : Chart) (layout : Layout) :
    decodeLayout ⟨e, true⟩ bytes = .ok (chart, layout) ↔
      decodeLayout ⟨e, false⟩ bytes = .ok (chart, layout) := by
  -- Either way exactly the images are accepted, and these do not speak of the checks.
  rw [decodeLayout_eq_ok, decodeLayout_eq_ok]

/-- A count that cannot fit is reported where it stands, instead of where the bytes end. -/
example : decodeLayout ⟨.utf8, true⟩ [117, 0, 0, 0, 0, 1, 0, 0, 0, 0, 0, 0, 0] =
      .error ⟨none, 5, .truncated⟩ ∧
    decodeLayout ⟨.utf8, false⟩ [117, 0, 0, 0, 0, 1, 0, 0, 0, 0, 0, 0, 0] =
      .error ⟨none, 13, .truncated⟩ :=
  ⟨rfl, rfl⟩

/-! ### Writing what was read -/

/-- The body of an image is written again as it stood. -/
theorem Image.encodeBody_eq {chart : Chart} {layout : Layout} (image : Image e bytes chart layout) :
    ∃ stored body, bytes = chart.header.encode ++ stored ∧
      layout.plain = chart.header.encode ++ body ∧
      chart.header.Stores body stored ∧ chart.encodeBody = .ok body := by
  obtain ⟨_, stored, stream, table, records, ⟨_, _, _, rfl⟩, stores, streamed,
    ⟨_, labels, many, rfl⟩, rfl, rfl, commands, rfl⟩ := image
  refine ⟨stored, _, rfl, rfl, stores, ?_⟩
  have written := streamed.encode_eq
  rw [← commands] at written
  have length : chart.length = records.length := by
    rw [Chart.length, commands, List.length_map]
  simp only [encodeBody, Label.encodeTable, written, length, Label.encodeAll_of_many many, bind,
    Except.bind, pure, Except.pure]

/-- What writing a chart asks for. -/
theorem toBytes_eq_ok {chart : Chart} : chart.toBytes = .ok bytes ↔
    ∃ body stored, chart.encodeBody = .ok body ∧ chart.header.Stores body stored ∧
      bytes = chart.header.encode ++ stored := by
  simp only [toBytes, Header.Stores, bind_eq_ok]
  refine exists_congr fun body => ?_
  rw [exists_and_left]
  refine and_congr_right fun _ => ?_
  cases chart.header.scramble with
  | some params =>
    simp only [bind_eq_ok, pure_eq_ok, mapError_eq_ok]
    exact exists_congr fun _ => and_congr_right fun _ => eq_comm
  | none =>
    rw [pure_eq_ok]
    constructor
    · rintro rfl
      exact ⟨body, rfl, rfl⟩
    · rintro ⟨_, rfl, rfl⟩
      rfl

/-- The chart of an image is written as the image. -/
theorem Image.toBytes_eq {chart : Chart} {layout : Layout} (image : Image e bytes chart layout) :
    chart.toBytes = .ok bytes := by
  obtain ⟨stored, body, rfl, _, stores, written⟩ := image.encodeBody_eq
  exact toBytes_eq_ok.mpr ⟨body, stored, written, stores, rfl⟩

/-- A chart that was read is written with the bytes that it was read from, and its plain image is
the one that was read. -/
theorem rewrite_exact {r : Reading} {bytes : List UInt8} {chart : Chart} {layout : Layout}
    (read : decodeLayout r bytes = .ok (chart, layout)) :
    Chart.ofBytes r.encoding bytes = .ok chart ∧ chart.toBytes = .ok bytes ∧
      chart.toPlainBytes = .ok layout.plain := by
  have image := decodeLayout_eq_ok.mp read
  refine ⟨?_, image.toBytes_eq, ?_⟩
  · rw [Chart.ofBytes, bind_eq_ok]
    exact ⟨(chart, layout), decodeLayout_eq_ok.mpr image, rfl⟩
  · obtain ⟨_, body, _, plain, _, written⟩ := image.encodeBody_eq
    rw [toPlainBytes, bind_eq_ok, plain]
    exact ⟨body, written, rfl⟩

/-- A chart whose body is shuffled, with a text block, a variable tail and a raw body. -/
def sample : Chart where
  header := ⟨117, 6, some ⟨7, 5⟩⟩
  encoding := .cp932
  commands := [
    ⟨.textInsert, 3, 1, .typed ⟨[.str "Box", .flag true, .flag false, .flag true], [],
      some ⟨104, [.text "Hi;", .lineBreak,
        .span ⟨"A", [("ID", "-3"), ("NAME", "x")]⟩ [.text "ｱ", .mark ⟨"PS", []⟩]]⟩⟩⟩,
    ⟨.menu, 0, 0, .typed ⟨[.str "", .flag true], [[.str "Go", .int 1]], none⟩⟩,
    ⟨⟨0x09⟩, 0, 0, .raw [1, 2, 3]⟩]
  labels := [⟨"end", 3⟩]

/-- The bytes of the sample. -/
def sampleBytes : List UInt8 := [
  117, 0, 0, 0, 7, 7, 0, 0, 0, 5, 0, 0, 0, 55, 0, 0, 0, 3, 0, 0, 0, 0, 0, 3, 0, 0, 0, 48, 52, 5, 0,
  0, 0, 1, 84, 112, 87, 111, 114, 100, 49, 1, 2, 3, 1, 0, 0, 0, 59, 3, 0, 2, 17, 3, 253, 255, 255,
  255, 1, 0, 0, 0, 1, 0, 0, 0, 9, 0, 0, 0, 66, 111, 120, 1, 0, 1, 1, 72, 1, 1, 105, 1, 1, 177, 3,
  2, 25, 0, 0, 0, 3, 0, 0, 0, 107, 0, 0, 0, 20, 3, 0, 0, 0, 1, 3, 0, 0, 0, 101, 110, 100, 0, 0, 19,
  0, 0, 0, 0, 0, 2, 0, 0, 0, 71, 111, 0, 0, 0, 1, 1, 0, 0, 120, 2, 0, 0, 0, 1, 1, 3, 0, 0, 0]

/-- Where the parts of the sample lie. -/
def sampleLayout : Layout where
  plain := [
    117, 0, 0, 0, 7, 7, 0, 0, 0, 5, 0, 0, 0, 3, 0, 0, 0, 107, 0, 0, 0, 20, 3, 0, 0, 0, 1, 55, 0, 0,
    0, 3, 0, 0, 0, 66, 111, 120, 1, 0, 1, 84, 112, 87, 111, 114, 100, 49, 48, 52, 5, 0, 0, 0, 1, 1,
    72, 1, 1, 105, 1, 1, 59, 3, 0, 2, 17, 3, 253, 255, 255, 255, 1, 0, 0, 0, 120, 2, 0, 0, 0, 1, 1,
    177, 3, 2, 25, 0, 0, 0, 0, 0, 19, 0, 0, 0, 0, 0, 0, 0, 1, 1, 0, 0, 0, 2, 0, 0, 0, 71, 111, 1,
    0, 0, 0, 9, 0, 0, 0, 0, 0, 3, 0, 0, 0, 1, 2, 3, 1, 0, 0, 0, 3, 0, 0, 0, 101, 110, 100, 3, 0, 0,
    0]
  header := ⟨0, 13⟩
  records := [⟨21, 31, 86⟩, ⟨86, 96, 115⟩, ⟨115, 125, 128⟩]
  labels := ⟨128, 143⟩

set_option maxRecDepth 10000 in
/-- The sample is written with the bytes that it was read from. -/
theorem rewrite_exact_sample :
    decodeLayout ⟨.cp932, true⟩ sampleBytes = .ok (sample.marked, sampleLayout) ∧
      Chart.ofBytes .cp932 sampleBytes = .ok sample.marked ∧
        sample.marked.toBytes = .ok sampleBytes ∧
        sample.marked.toPlainBytes = .ok sampleLayout.plain := by
  have read : decodeLayout ⟨.cp932, true⟩ sampleBytes = .ok (sample.marked, sampleLayout) := by
    rfl
  have written := rewrite_exact read
  exact ⟨read, written⟩

/-! ### Reading what was written -/

/-- The bytes of a canonical chart are its image, if all its strings survive. -/
theorem exists_image {chart : Chart}
    (supported : 103 ≤ chart.header.version ∧ chart.header.version ≤ 117)
    (canon : ∀ c ∈ chart.commands, c.IsCanonical)
    (survive : ∀ c ∈ chart.commands, c.Survives chart.encoding)
    (names : ∀ l ∈ chart.labels, chart.encoding.Survives l.name)
    (written : chart.toBytes = .ok bytes) (small : bytes.length < 2 ^ 32) :
    ∃ layout, Image chart.encoding bytes chart.marked layout := by
  obtain ⟨body, stored, encoded, stores, rfl⟩ := toBytes_eq_ok.mp written
  simp only [encodeBody, Command.encodeStream, Label.encodeTable, bind_eq_ok, pure_eq_ok] at encoded
  obtain ⟨_, ⟨stream, written₁, rfl⟩, _, ⟨table, written₂, rfl⟩, rfl⟩ := encoded
  -- Shuffling keeps the length, so every count inside the body is below the limit of the whole.
  rw [List.length_append, stores.length_eq] at small
  simp only [List.length_append, Bytes.length_counted, Bytes.length_count] at small
  have many := Command.many_of_encodeAll written₁ canon survive (by omega)
  have commands := many.length_le fun _ _ => Command.Spelled.minSize_le
  simp only [Command.minSize] at commands
  have many' := Label.many_of_encodeAll written₂ names (by rw [Chart.length]; omega) (by omega)
  have labels := many'.length_le fun _ _ => Label.Spelled.minSize_le
  simp only [Label.minSize] at labels
  obtain ⟨records, same, spelled⟩ := Command.exists_records many (chart.header.encode.length + 8)
  have length : records.length = chart.commands.length := by
    rw [← same, List.length_map]
  refine ⟨_, chart.header.encode, stored, _, _, records, ?_, stores, ?_, ?_, rfl, rfl, same.symm,
    rfl⟩
  · exact ⟨supported.1, supported.2, Header.isScrambled_markScrambled _ _,
      (encode_marked chart).symm⟩
  · exact ⟨by omega, stream, by omega, spelled, by rw [length]⟩
  · rw [length]
    exact ⟨by change chart.labels.length < _; omega, table, many', rfl⟩

/-- A canonical chart is read back from its bytes, if all its strings survive. Reading sets the
mark of a shuffled body exactly where there is one, and keeps every other flag. -/
theorem read_written {chart : Chart} {bytes : List UInt8}
    (supported : 103 ≤ chart.header.version ∧ chart.header.version ≤ 117)
    (canon : ∀ c ∈ chart.commands, c.IsCanonical)
    (survive : ∀ c ∈ chart.commands, c.Survives chart.encoding)
    (names : ∀ l ∈ chart.labels, chart.encoding.Survives l.name)
    (written : chart.toBytes = .ok bytes) (small : bytes.length < 2 ^ 32) :
    ∃ flags, Chart.ofBytes chart.encoding bytes =
        .ok { chart with header := { chart.header with flags } } ∧
      ∀ i, flags.toNat.testBit i =
        if i = 0 then chart.header.scramble.isSome else chart.header.flags.toNat.testBit i := by
  obtain ⟨layout, image⟩ := exists_image supported canon survive names written small
  refine ⟨_, ?_, Header.testBit_markScrambled chart.header.flags chart.header.scramble.isSome⟩
  rw [Chart.ofBytes, bind_eq_ok]
  exact ⟨(chart.marked, layout), decodeLayout_eq_ok.mpr image, rfl⟩

/-- The commands of the sample are canonical. -/
theorem sample_canonical : ∀ c ∈ sample.commands, c.IsCanonical := by
  have link : Tag.IsCanonical ⟨"A", [("ID", "-3"), ("NAME", "x")]⟩
      (.pair "A" 0x11 [⟨"ID", .int⟩, ⟨"NAME", .str⟩]) := by
    refine ⟨by decide, rfl, [(⟨"ID", .int⟩, "-3"), (⟨"NAME", .str⟩, "x")], .refl _, ?_, rfl⟩
    simp only [List.mem_cons, List.not_mem_nil, or_false, forall_eq_or_imp, forall_eq]
    exact ⟨⟨-3, rfl⟩, trivial⟩
  have pause : Tag.IsCanonical ⟨"PS", []⟩ ⟨"PS", .brk 2, [], false⟩ := by
    refine ⟨by decide, rfl, [], .refl _, fun _ member => ?_, rfl⟩
    cases member
  simp only [sample, List.mem_cons, List.not_mem_nil, or_false, forall_eq_or_imp, forall_eq]
  refine ⟨?_, ?_, rfl⟩
  · intro block found
    cases found
    simp only [Token.AllCanonical, Token.IsCanonical]
    exact ⟨⟨by decide, by decide, trivial, by decide, ⟨⟨_, link, rfl⟩, by decide, by decide,
      ⟨_, pause, rfl⟩, by decide, trivial⟩, by decide, trivial⟩, rfl⟩
  · intro block found
    cases found

/-- The strings of the sample survive. -/
theorem sample_survives : ∀ c ∈ sample.commands, c.Survives .cp932 := by
  have kana : Encoding.cp932.decode [177] = .ok "ｱ" := by
    decide +kernel
  have link : Tag.Survives .cp932 ⟨"A", [("ID", "-3"), ("NAME", "x")]⟩ := by
    intro spec _ attr member a _ _ _
    simp only [List.mem_cons, List.not_mem_nil, or_false] at member
    rcases member with rfl | rfl
    · exact ⟨_, rfl, rfl⟩
    · exact ⟨_, rfl, rfl⟩
  have pause : Tag.Survives .cp932 ⟨"PS", []⟩ := by
    intro spec _ attr member
    cases member
  simp only [sample, List.mem_cons, List.not_mem_nil, or_false, forall_eq_or_imp, forall_eq]
  refine ⟨?_, ?_, ?_⟩
  · intro params same
    cases same
    refine ⟨?_, ?_, ?_⟩
    · simp only [List.mem_cons, List.not_mem_nil, or_false, forall_eq_or_imp, forall_eq]
      exact ⟨.str ⟨_, rfl, rfl⟩, .flag _, .flag _, .flag _⟩
    · intro group member
      cases member
    · intro block found
      cases found
      refine ⟨?_, trivial, ⟨link, ?_, pause, trivial⟩, trivial⟩
      · change ∀ c ∈ ['H', 'i', ';'], _
        simp only [List.mem_cons, List.not_mem_nil, or_false, forall_eq_or_imp, forall_eq]
        exact ⟨⟨_, rfl, rfl⟩, ⟨_, rfl, rfl⟩, ⟨_, rfl, rfl⟩⟩
      · intro c member
        obtain rfl := List.mem_singleton.mp member
        exact Encoding.survives_of_decode kana
  · intro params same
    cases same
    refine ⟨?_, ?_, ?_⟩
    · simp only [List.mem_cons, List.not_mem_nil, or_false, forall_eq_or_imp, forall_eq]
      exact ⟨.str ⟨_, rfl, rfl⟩, .flag _⟩
    · simp only [List.mem_cons, List.not_mem_nil, or_false, forall_eq_or_imp, forall_eq]
      exact ⟨.str ⟨_, rfl, rfl⟩, .int _⟩
    · intro block found
      cases found
  · intro params same
    cases same

set_option maxRecDepth 10000 in
/-- The sample is read back from its bytes. Its flags lack the mark, which is set. -/
theorem read_written_sample :
    sample.toBytes = .ok sampleBytes ∧ ∃ flags, Chart.ofBytes .cp932 sampleBytes =
        .ok { sample with header := { sample.header with flags } } ∧
      ∀ i, flags.toNat.testBit i =
        if i = 0 then sample.header.scramble.isSome else sample.header.flags.toNat.testBit i := by
  have names : ∀ l ∈ sample.labels, sample.encoding.Survives l.name := by
    intro l member
    obtain rfl := List.mem_singleton.mp member
    exact ⟨_, rfl, rfl⟩
  have written : sample.toBytes = .ok sampleBytes := by
    rfl
  have read := read_written (by decide) sample_canonical sample_survives names written (by decide)
  exact ⟨written, read⟩

end Chart

end NovelChart
