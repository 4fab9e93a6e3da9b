import NovelChart.Proofs.Located
import NovelChart.Proofs.ReadBack

/-!
# Charts that are cut off or run on

The bytes of a chart say themselves where the chart ends: every count, string, record and table
inside takes as many bytes whatever follows. A chart whose body is not shuffled is therefore read in
the same way when bytes are added behind it, up to where it ends, and it is refused there. So no
image of such a chart goes on another one, and nothing that is cut off it is an image.

## Main results

* `Header.Spelled.flags_eq`: the flags stand behind the version
* `Chart.Image.decodeLayout_append`: what follows an image is found behind it
* `Chart.refuses_cut_and_trailing`: neither more bytes nor fewer are read as a chart
-/

namespace NovelChart

variable {e : Encoding} {bytes : List UInt8} {chart : Chart} {layout : Layout}

/-- The flags of a header stand behind its version. -/
theorem Header.Spelled.flags_eq {h : Header} (spelled : Header.Spelled bytes h) :
    bytes[4]? = some h.flags := by
  obtain ⟨_, _, marked, rfl⟩ := spelled
  rw [Header.encode, List.getElem?_append_right (by simp), Header.markScrambled_eq_self.mpr marked]
  simp

namespace Chart

/-- The flags of an image say whether its body is shuffled. -/
theorem Image.isScrambled_eq (image : Image e bytes chart layout) :
    ∃ flags, bytes[4]? = some flags ∧
      Header.isScrambled flags = chart.header.scramble.isSome := by
  obtain ⟨head, _, _, _, _, spelled, _, _, _, rfl, _⟩ := image
  have flags := spelled.flags_eq
  have inside := (List.getElem?_eq_some_iff.mp flags).1
  exact ⟨_, (List.getElem?_append_left inside).trans flags, spelled.2.2.1⟩

/-- What follows an image that is not shuffled is found behind it. -/
theorem Image.decodeLayout_append {r : Reading} (image : Image r.encoding bytes chart layout)
    (ordered : chart.header.scramble = none) {tail : List UInt8} (more : tail ≠ []) :
    decodeLayout r (bytes ++ tail) =
      .error ⟨none, bytes.length, .trailingBytes tail.length⟩ := by
  obtain ⟨head, stored, stream, table, records, spelled, stores, streamed, labelled, rfl, _⟩ :=
    image
  obtain rfl : stored = stream ++ table := by
    rwa [Header.Stores, ordered] at stores
  -- Each part is read as before, with the tail left behind it.
  let c : Cursor := ⟨none, head.length, stream ++ table ++ tail⟩
  let atLabels : Cursor := ⟨none, head.length + stream.length, table ++ tail⟩
  let behind : Cursor := ⟨none, head.length + stream.length + table.length, tail⟩
  have passes₁ : (Cursor.ofBytes (head ++ (stream ++ table) ++ tail)).Passes head c :=
    ⟨List.append_assoc _ _ _, (Nat.zero_add _).symm, rfl⟩
  have passes₂ : c.Passes stream atLabels := ⟨List.append_assoc _ _ _, rfl, rfl⟩
  have passes₃ : atLabels.Passes table behind := ⟨rfl, rfl, rfl⟩
  have read₁ := (Header.reads_decode _ _ _).mpr ⟨head, spelled, passes₁⟩
  have opened : openBody chart.header c = .ok c.rest := by
    rw [openBody, ordered]
    rfl
  have read₂ : Command.decodeStream r c = .ok (records, atLabels) :=
    (Command.decodeStream_eq_ok rfl).mpr ⟨stream, streamed, passes₂⟩
  have read₃ := (Label.reads_decodeTable r records.length _ _ _).mpr ⟨table, labelled, passes₃⟩
  -- The end of the chart is reached, and bytes are left.
  have left : behind.finish = .error (behind.error (.trailingBytes tail.length)) := by
    have full : behind.isEmpty = false := List.isEmpty_eq_false_iff.mpr more
    rw [Cursor.finish, full]
    rfl
  have length : (head ++ (stream ++ table)).length = behind.offset := by
    simp only [List.length_append, behind, Nat.add_assoc]
  simp only [decodeLayout_eq, bind_eq_error, Prod.exists, length]
  exact .inr ⟨_, c, read₁, .inr ⟨_, opened, .inr ⟨records, atLabels, read₂,
    .inr ⟨_, behind, read₃, .inl left⟩⟩⟩⟩

/-- A chart that is not shuffled is refused with bytes added behind it. -/
theorem ofBytes_append (read : Chart.ofBytes e bytes = .ok chart)
    (ordered : ∀ flags, bytes[4]? = some flags → Header.isScrambled flags = false)
    {tail : List UInt8} (more : tail ≠ []) :
    Chart.ofBytes e (bytes ++ tail) =
      .error ⟨none, bytes.length, .trailingBytes tail.length⟩ := by
  obtain ⟨layout, image⟩ := ofBytes_eq_ok.mp read
  obtain ⟨flags, here, marked⟩ := image.isScrambled_eq
  have unmarked : chart.header.scramble = none := by
    rw [← Option.not_isSome_iff_eq_none, ← marked, ordered flags here]
    decide
  rw [Chart.ofBytes, bind_eq_error]
  exact .inl (Image.decodeLayout_append (r := ⟨e, true⟩) image unmarked more)

/-- Bytes that are added to a chart whose body is not shuffled are found behind it, and whatever is
cut off it is missed: no part from its front is read as a chart. -/
theorem refuses_cut_and_trailing {e : Encoding} {bytes : List UInt8} {chart : Chart}
    (read : Chart.ofBytes e bytes = .ok chart)
    (ordered : ∀ flags, bytes[4]? = some flags → Header.isScrambled flags = false) :
    (∀ tail, tail ≠ [] → Chart.ofBytes e (bytes ++ tail) =
      .error ⟨none, bytes.length, .trailingBytes tail.length⟩) ∧
    ∀ front, front <+: bytes → front ≠ bytes → ∃ f, Chart.ofBytes e front = .error f := by
  refine ⟨fun tail more => ofBytes_append read ordered more, ?_⟩
  rintro front ⟨tail, rfl⟩ cut
  cases outcome : Chart.ofBytes e front with
  | error f => exact ⟨f, rfl⟩
  | ok chart' =>
    -- If the front were a chart, the whole would run on behind it.
    have more : tail ≠ [] := by
      rintro rfl
      exact cut (List.append_nil front).symm
    have same : ∀ flags, front[4]? = some flags → Header.isScrambled flags = false := by
      intro flags here
      have inside := (List.getElem?_eq_some_iff.mp here).1
      exact ordered flags ((List.getElem?_append_left inside).trans here)
    cases read.symm.trans (ofBytes_append outcome same more)

/-- The sample in plain order. -/
def orderedBytes : List UInt8 :=
  [117, 0, 0, 0, 6] ++ sampleLayout.plain.drop 13

set_option maxRecDepth 10000 in
/-- The sample in plain order is refused with a byte too many and with one too few. -/
theorem refuses_cut_and_trailing_sample :
    Chart.ofBytes .cp932 orderedBytes =
        .ok { sample with header := { sample.header with scramble := none } } ∧
      Chart.ofBytes .cp932 (orderedBytes ++ [0]) = .error ⟨none, 135, .trailingBytes 1⟩ ∧
      ∃ f, Chart.ofBytes .cp932 (orderedBytes.take 134) = .error f := by
  have read : Chart.ofBytes .cp932 orderedBytes =
      .ok { sample with header := { sample.header with scramble := none } } := by
    rfl
  have ordered : ∀ flags, orderedBytes[4]? = some flags → Header.isScrambled flags = false := by
    rintro _ ⟨⟩
    rfl
  obtain ⟨trailing, cut⟩ := refuses_cut_and_trailing read ordered
  exact ⟨read, trailing [0] (by decide), cut _ (List.take_prefix _ _) (by decide)⟩

end Chart

end NovelChart
