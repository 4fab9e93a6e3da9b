import NovelChart.Proofs.Chart
import NovelChart.Proofs.Recompile
import NovelChart.Validation

/-!
# Every chart is certified

Bytes that can be read as a chart are certified. The chart is written again as the same bytes, so
both digests agree; and the text blocks, which the validator cuts out of the plain image by the
spans of their records, come out of their scripts with the bytes that they had.

## Main definitions

* `Layout.Holds`: the validator finds the text block of a command in the image
* `Chart.textLines`: the lines of the commands that have a text block

## Main results

* `Chart.Image.holds`: every text block is found where its record lies
* `Validator.checkBlocks_eq_ok`: there is one check for each text block, in the order of the lines
* `Validator.validate_certifies`: a byte string is refused exactly if it is no chart, and certified
  otherwise
-/

namespace NovelChart

variable {e : Encoding}

/-! ### Where text blocks lie -/

/-- The text block of a command, if it has one, is found in the image behind its other parameters,
with the bytes that it is written with. -/
def Layout.Holds (layout : Layout) (e : Encoding) (record : Command × Span) : Prop :=
  ∀ block, record.1.text? = some block →
    ∃ offset, record.1.textOffset? e = .ok (some offset) ∧
      record.2.bodyStart + offset ≤ record.2.stop ∧ record.2.stop ≤ layout.plain.length ∧
      block.encode e = .ok (layout.bytes (record.2.bodyStart + offset) record.2.stop)

theorem Layout.bytes_eq {layout : Layout} {front middle back : List UInt8}
    (plain : layout.plain = front ++ (middle ++ back)) :
    layout.bytes front.length (front.length + middle.length) = middle := by
  rw [Layout.bytes, plain, ← List.append_assoc, ← List.length_append, List.take_left',
    List.drop_left']
  · rfl
  · rfl

namespace Command

/-- A record that carries a text block ends with it. -/
theorem Spelled.text {c : Command} {bytes : List UInt8} {block : TextBlock}
    (spelled : Spelled e bytes c) (carries : c.text? = some block) :
    ∃ front values text, bytes = front ++ (values ++ text) ∧ front.length = minSize ∧
      c.textOffset? e = .ok (some values.length) ∧ block.encode e = .ok text := by
  obtain ⟨opcode, indent, flags, body⟩ := c
  obtain ⟨inner, _, spelled, rfl⟩ := spelled
  simp only [BodySpelled] at spelled
  split at spelled
  · next schema known =>
    obtain ⟨params, ⟨values, text, spelled₁, spelled₂, rfl⟩, rfl⟩ := spelled
    have found : params.text = some block := carries
    rw [found] at spelled₂
    cases carriesText : schema.carriesText with
    | false =>
      rw [carriesText] at spelled₂
      cases spelled₂.2
    | true =>
      rw [carriesText] at spelled₂
      obtain ⟨_, spelled₂, same⟩ := spelled₂
      cases same
      refine ⟨opcode.code :: (Bytes.u32 indent ++ flags :: Bytes.count (values ++ text).length),
        values, text, ?_, ?_, ?_, spelled₂.encode_eq⟩
      · simp [Bytes.counted]
      · simp [minSize]
      · simp [textOffset?, typed?, params?, known, found, spelled₁.encode_eq, bind, Except.bind,
          pure, Except.pure]
  · -- A raw body has no text block.
    rw [spelled] at carries
    cases carries

/-- A layout holds the text block of a record that stands in its image. -/
theorem Spelled.holds {c : Command} {bytes front back : List UInt8} {layout : Layout}
    (spelled : Spelled e bytes c) (plain : layout.plain = front ++ (bytes ++ back)) :
    layout.Holds e
      (c, ⟨front.length, front.length + minSize, front.length + bytes.length⟩) := by
  intro block carries
  obtain ⟨first, values, text, rfl, size, found, written⟩ := spelled.text carries
  refine ⟨values.length, found, ?_, ?_, ?_⟩
  · simp only [List.length_append]
    omega
  · simp only [plain, List.length_append]
    omega
  · have ahead : layout.plain = (front ++ first ++ values) ++ (text ++ back) := by
      simp only [plain, List.append_assoc]
    have cut := Layout.bytes_eq ahead
    simp only [List.length_append, size] at cut
    simp only [List.length_append, size, ← Nat.add_assoc, cut, written]

/-- A record of a stream stands between those in front of it and those behind it, and its span says
where. -/
theorem Records.exists_cut {offset : Nat} {body : List UInt8} {records : List (Command × Span)}
    {record : Command × Span} (spelled : Records e offset body records)
    (member : record ∈ records) :
    ∃ front bytes back, body = front ++ (bytes ++ back) ∧ Spelled e bytes record.1 ∧
      record.2 = ⟨offset + front.length, offset + front.length + minSize,
        offset + front.length + bytes.length⟩ := by
  induction spelled with
  | nil => cases member
  | @cons offset bytes more _ _ first _ ih =>
    cases member with
    | head => exact ⟨[], bytes, more, rfl, first, rfl⟩
    | tail _ later =>
      -- The first record joins what lies in front of the others.
      obtain ⟨front, bytes', back, rfl, spelled, span⟩ := ih later
      refine ⟨bytes ++ front, bytes', back, (List.append_assoc ..).symm, spelled, ?_⟩
      rw [span, List.length_append, Nat.add_assoc offset]

end Command

namespace Chart

variable {bytes : List UInt8} {chart : Chart} {layout : Layout}

/-- The record of every command of an image stands where its span says. -/
theorem Image.exists_cut {record : Command × Span} (image : Image e bytes chart layout)
    (member : record ∈ chart.commands.zip layout.records) :
    ∃ front bytes back, layout.plain = front ++ (bytes ++ back) ∧
      Command.Spelled e bytes record.1 ∧
      record.2 = ⟨front.length, front.length + Command.minSize, front.length + bytes.length⟩ := by
  obtain ⟨head, stored, _, table, records, _, _, ⟨_, body, _, spelled, rfl⟩, _, _, _, commands,
    rfl⟩ := image
  rw [commands] at member
  change record ∈ (records.map Prod.fst).zip (records.map Prod.snd) at member
  rw [← List.unzip_fst, ← List.unzip_snd, List.zip_unzip] at member
  obtain ⟨front, bytes, back, rfl, spelled, span⟩ := spelled.exists_cut member
  -- The header and the two words of the stream lie in front of the records.
  let ahead := head ++ Bytes.count records.length ++
    Bytes.count (front ++ (bytes ++ back)).length ++ front
  have length : ahead.length = head.length + 8 + front.length := by
    simp only [ahead, List.length_append, Bytes.length_count]
  refine ⟨ahead, bytes, back ++ table, ?_, spelled, ?_⟩
  · simp [ahead, Bytes.counted]
  · rw [span, length]

theorem Image.length_records (image : Image e bytes chart layout) :
    chart.commands.length = layout.records.length := by
  obtain ⟨_, _, _, _, records, _, _, _, _, _, _, commands, rfl⟩ := image
  rw [commands, List.length_map, List.length_map]

/-- The commands of an image stand beside their spans, where the layout holds their text blocks. -/
theorem Image.holds (image : Image e bytes chart layout) :
    chart.commands.length = layout.records.length ∧
      ∀ record ∈ chart.commands.zip layout.records, layout.Holds e record := by
  refine ⟨image.length_records, fun record member => ?_⟩
  obtain ⟨command, span⟩ := record
  obtain ⟨front, bytes, back, plain, spelled, rfl⟩ := image.exists_cut member
  exact spelled.holds plain

/-- The lines of the commands that have a text block. -/
def textLines (chart : Chart) : List Nat :=
  (chart.commands.zipIdx.filter fun (command, _) => command.text?.isSome).map Prod.snd

end Chart

/-! ### Certification -/

namespace Validator

variable {v : Validator} {layout : Layout}

/-- A block that can be written passes its check against its own bytes, unless its script leaves
markup out. -/
theorem checkBlock_eq_same {block : TextBlock} {bytes : List UInt8}
    (written : block.encode e = .ok bytes) (whole : v.textOnly = false) :
    v.checkBlock e block bytes = .same := by
  have compiled : Script.compile v.keepComments (Script.print v.textOnly block.tokens) =
      .ok (block.settle v.keepComments).tokens := by
    rw [whole]
    exact TextBlock.compile_settle written v.keepComments
  have rebuilt : v.rebuildBlock e block = .ok bytes := by
    rw [rebuildBlock, compiled]
    exact TextBlock.encode_settle written v.keepComments
  rw [checkBlock, rebuilt]
  exact if_pos rfl

/-- The checks of records whose text blocks lie in the image: one for each block. -/
theorem checkBlocks_eq_ok {records : List (Command × Span)}
    (held : ∀ record ∈ records, layout.Holds e record) (line : Nat) :
    ∃ checks, v.checkBlocks e layout records line = .ok checks ∧
      checks.map BlockCheck.line =
        (((records.map Prod.fst).zipIdx line).filter fun (command, _) => command.text?.isSome).map
          Prod.snd ∧
      (v.textOnly = false → ∀ check ∈ checks, check.isOk) := by
  induction records generalizing line with
  | nil => exact ⟨[], rfl, rfl, fun _ _ member => nomatch member⟩
  | cons record records ih =>
    obtain ⟨command, span⟩ := record
    obtain ⟨checks, checked, lines, same⟩ :=
      ih (fun record member => held record (List.mem_cons_of_mem _ member)) (line + 1)
    cases text : command.text? with
    | none =>
      refine ⟨checks, ?_, ?_, same⟩
      · rw [checkBlocks, text]
        exact checked
      · simp [text, lines]
    | some block =>
      obtain ⟨offset, found, _, _, written⟩ := held (command, span) List.mem_cons_self block text
      refine ⟨⟨line, v.checkBlock e block (layout.bytes (span.bodyStart + offset) span.stop)⟩ ::
        checks, ?_, ?_, ?_⟩
      · simp only [checkBlocks, text, found, checked, bind, Except.bind, pure, Except.pure]
      · simp [text, lines]
      · intro whole check member
        cases member with
        | head =>
          have passed := checkBlock_eq_same written whole
          rw [BlockCheck.isOk, passed]
          rfl
        | tail _ member => exact same whole check member

/-- A byte string is refused exactly if it cannot be read as a chart, and with the same fault. Any
other one is certified: the text blocks lie in the image where they are looked for, the digests
agree, and every text block is checked, with success unless scripts leave markup out. -/
theorem validate_certifies (v : Validator) (e : Encoding) (bytes : List UInt8) :
    match Chart.decodeLayout ⟨e, true⟩ bytes with
    | .error fault => v.validate e bytes = .error (.format fault)
    | .ok (chart, layout) =>
      (chart.commands.length = layout.records.length ∧
        ∀ record ∈ chart.commands.zip layout.records, layout.Holds e record) ∧
      ∃ report, v.validate e bytes = .ok report ∧
        report.digest = Digest.sha256Hex bytes ∧ report.rebuiltDigest = report.digest ∧
        report.divergences = [] ∧ report.blocks.map BlockCheck.line = chart.textLines ∧
        (v.textOnly = false → (∀ check ∈ report.blocks, check.isOk) ∧ report.isOk) := by
  cases read : Chart.decodeLayout ⟨e, true⟩ bytes with
  | error fault =>
    rw [validate, read]
    rfl
  | ok parts =>
    obtain ⟨chart, layout⟩ := parts
    have image : Chart.Image e bytes chart layout := Chart.decodeLayout_eq_ok.mp read
    have held := image.holds
    obtain ⟨checks, checked, lines, same⟩ := checkBlocks_eq_ok (v := v) held.2 0
    refine ⟨held, ⟨Digest.sha256Hex bytes, Digest.sha256Hex bytes, [], checks⟩, ?_, rfl, rfl, rfl,
      ?_, ?_⟩
    · -- The chart is written as the bytes it was read from, so there are no parts to compare.
      simp only [validate, read, Except.mapError, bind, Except.bind, image.toBytes_eq, checked,
        if_true, pure, Except.pure]
    · rw [lines, List.map_fst_zip held.1.le]
      rfl
    · intro whole
      refine ⟨same whole, ?_⟩
      rw [Report.isOk, Report.isIdentical, beq_self_eq_true, Bool.true_and, List.all_eq_true]
      exact same whole

end Validator

end NovelChart
