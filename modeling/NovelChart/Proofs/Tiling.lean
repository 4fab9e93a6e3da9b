import NovelChart.Proofs.Certification

/-!
# The layout of a chart tiles its plain image

Reading a chart reports offsets into its plain image: where the header lies, each record, and the
label table. These offsets are gathered while bytes are read, the records through cursors of their
own, but they come out as one tiling. The parts follow one another from the first byte to the last,
and each of them holds just the bytes that the part of the chart is written with. The body of a
shuffled chart is put in order first, so this does not depend on how the chart is stored.

## Main definitions

* `Extent.Tile`: extents follow one another between two offsets
* `Layout.parts`: the parts of the plain image in their order
* `Layout.Shows`: the record of a command lies where its span says

## Main results

* `Command.Records.tile`: the spans of records that were read one after another are a tiling
* `Chart.Image.shows`: every span shows its command
* `Chart.decodeLayout_tiles`: the parts of every chart that can be read, and what they hold
-/

namespace NovelChart

variable {e : Encoding}

/-! ### Tilings -/

namespace Extent

/-- The extents follow one another from an offset to another one, without gap or overlap. -/
def Tile : Nat → List Extent → Nat → Prop
  | start, [], stop => start = stop
  | start, part :: parts, stop =>
    part.start = start ∧ start ≤ part.stop ∧ Tile part.stop parts stop

theorem Tile.append {a b c : Nat} {front back : List Extent} (first : Tile a front b)
    (second : Tile b back c) : Tile a (front ++ back) c := by
  induction front generalizing a with
  | nil =>
    obtain rfl : a = b := first
    exact second
  | cons part front ih =>
    obtain ⟨start, forward, rest⟩ := first
    exact ⟨start, forward, ih rest⟩

theorem tile_singleton {a b : Nat} (forward : a ≤ b) : Tile a [⟨a, b⟩] b :=
  ⟨rfl, forward, rfl⟩

end Extent

/-- The extent of a record. -/
def Span.extent (span : Span) : Extent :=
  ⟨span.start, span.stop⟩

namespace Layout

/-- The extent of the two words in front of the records: how many there are, and their size. -/
def counts (layout : Layout) : Extent :=
  ⟨layout.header.stop, layout.header.stop + 8⟩

/-- The parts of the plain image: header, counts, records and label table. -/
def parts (layout : Layout) : List Extent :=
  layout.header :: layout.counts :: (layout.records.map Span.extent ++ [layout.labels])

/-- The bytes of a part. -/
def cut (layout : Layout) (part : Extent) : List UInt8 :=
  layout.bytes part.start part.stop

/-- A part is what stands between the bytes in front of it and those behind. -/
theorem cut_eq {layout : Layout} {part : Extent} {front middle back : List UInt8}
    (plain : layout.plain = front ++ (middle ++ back)) (start : part.start = front.length)
    (stop : part.stop = front.length + middle.length) : layout.cut part = middle := by
  rw [cut, start, stop, bytes_eq plain]

/-- The record of a command lies where its span says: the body behind ten bytes, and at its end the
text block, if there is one. -/
structure Shows (layout : Layout) (e : Encoding) (record : Command × Span) : Prop where
  bodyStart : record.2.bodyStart = record.2.start + 10
  encode_eq : record.1.encode e = .ok (layout.cut record.2.extent)
  text : layout.Holds e record

end Layout

namespace Command

/-- Records that stand side by side have spans that do. -/
theorem Records.tile {offset : Nat} {body : List UInt8} {records : List (Command × Span)}
    (spelled : Records e offset body records) :
    Extent.Tile offset ((records.map Prod.snd).map Span.extent) (offset + body.length) := by
  induction spelled with
  | nil => rfl
  | @cons offset bytes more _ _ _ _ ih =>
    rw [List.length_append, ← Nat.add_assoc]
    exact ⟨rfl, Nat.le_add_right offset bytes.length, ih⟩

end Command

/-! ### What the parts hold -/

namespace Chart

variable {bytes : List UInt8} {chart : Chart} {layout : Layout}

/-- Putting the body in order keeps the length. -/
theorem Image.length_plain (image : Image e bytes chart layout) :
    layout.plain.length = bytes.length := by
  obtain ⟨head, stored, _, _, _, _, stores, _, _, rfl, _, _, rfl⟩ := image
  simp only [List.length_append, stores.length_eq]

theorem Image.tile (image : Image e bytes chart layout) :
    Extent.Tile 0 layout.parts layout.plain.length := by
  obtain ⟨head, stored, _, table, records, _, _, ⟨_, body, _, spelled, rfl⟩, _, _, _, _, rfl⟩ :=
    image
  -- The label table begins where the last record stops.
  have behind : head.length + (Bytes.count records.length ++ Bytes.counted body).length =
      head.length + 8 + body.length := by
    rw [List.length_append, Bytes.length_count, Bytes.length_counted]
    omega
  have whole : (head ++ (Bytes.count records.length ++ Bytes.counted body ++ table)).length =
      head.length + 8 + body.length + table.length := by
    rw [List.length_append, List.length_append, ← Nat.add_assoc, behind]
  refine ⟨rfl, Nat.zero_le _, rfl, Nat.le_add_right _ _, spelled.tile.append ?_⟩
  simp only [behind, whole]
  exact Extent.tile_singleton (Nat.le_add_right _ _)

theorem Image.cut_header (image : Image e bytes chart layout) :
    layout.cut layout.header = chart.header.encode := by
  obtain ⟨_, _, _, _, _, ⟨_, _, _, rfl⟩, _, _, _, _, _, _, rfl⟩ := image
  exact List.take_left

/-- The two words in front of the records: their number, and the number of bytes from there to the
label table. -/
theorem Image.cut_counts (image : Image e bytes chart layout) :
    layout.cut layout.counts = Bytes.count chart.length ++
      Bytes.count (layout.labels.start - layout.counts.stop) := by
  obtain ⟨head, _, _, table, records, _, _, ⟨_, body, _, _, rfl⟩, _, _, _, commands, lay⟩ := image
  have plain : layout.plain = head ++
      (Bytes.count records.length ++ Bytes.count body.length ++ (body ++ table)) := by
    simp [lay, Bytes.counted]
  have size : layout.labels.start - layout.counts.stop = body.length := by
    simp only [lay, Layout.counts, List.length_append, Bytes.length_count, Bytes.length_counted]
    omega
  rw [size, Chart.length, commands, List.length_map]
  exact Layout.cut_eq plain (by simp [lay, Layout.counts]) (by simp [lay, Layout.counts])

/-- Every span shows its command. -/
theorem Image.shows {record : Command × Span} (image : Image e bytes chart layout)
    (member : record ∈ chart.commands.zip layout.records) : layout.Shows e record := by
  obtain ⟨command, span⟩ := record
  obtain ⟨front, bytes, back, plain, spelled, rfl⟩ := image.exists_cut member
  refine ⟨rfl, ?_, spelled.holds plain⟩
  rw [spelled.encode_eq, Layout.cut_eq plain rfl rfl]

theorem Image.cut_labels (image : Image e bytes chart layout) :
    Label.encodeTable e chart.length chart.labels = .ok (layout.cut layout.labels) := by
  obtain ⟨head, _, stream, _, records, _, _, _, ⟨_, body, many, rfl⟩, _, _, commands, lay⟩ := image
  have plain : layout.plain =
      head ++ stream ++ (Bytes.count chart.labels.length ++ body ++ []) := by
    simp [lay]
  have table : layout.cut layout.labels = Bytes.count chart.labels.length ++ body :=
    Layout.cut_eq plain (by simp [lay]) (by simp [lay])
  rw [Chart.length, commands, List.length_map, Label.encodeTable, Label.encodeAll_of_many many,
    table]
  rfl

/-- The layout of every chart that can be read tiles the plain image, which is as long as what was
read: the header, the two words in front of the records, one record for each command, and the label
table. Each part holds what that part of the chart is written with, and each text block is found at
the end of its record. -/
theorem decodeLayout_tiles {r : Reading} (read : decodeLayout r bytes = .ok (chart, layout)) :
    layout.plain.length = bytes.length ∧
      Extent.Tile 0 layout.parts layout.plain.length ∧
      layout.cut layout.header = chart.header.encode ∧
      layout.cut layout.counts = Bytes.count chart.length ++
        Bytes.count (layout.labels.start - layout.counts.stop) ∧
      chart.commands.length = layout.records.length ∧
      (∀ record ∈ chart.commands.zip layout.records, layout.Shows r.encoding record) ∧
      Label.encodeTable r.encoding chart.length chart.labels = .ok (layout.cut layout.labels) := by
  have image := decodeLayout_eq_ok.mp read
  exact ⟨image.length_plain, image.tile, image.cut_header, image.cut_counts, image.length_records,
    fun _ member => image.shows member, image.cut_labels⟩

set_option maxRecDepth 10000 in
/-- The parts of the sample, whose body is shuffled. The text block of its first record lies behind
ten bytes of parameters. -/
theorem decodeLayout_tiles_sample :
    decodeLayout ⟨.cp932, true⟩ sampleBytes = .ok (sample.marked, sampleLayout) ∧
      Extent.Tile 0 [⟨0, 13⟩, ⟨13, 21⟩, ⟨21, 86⟩, ⟨86, 115⟩, ⟨115, 128⟩, ⟨128, 143⟩]
        sampleBytes.length ∧
      (∀ record ∈ sample.commands.zip sampleLayout.records, sampleLayout.Shows .cp932 record) ∧
      Label.encodeTable .cp932 3 sample.labels = .ok (sampleLayout.cut ⟨128, 143⟩) := by
  have read : decodeLayout ⟨.cp932, true⟩ sampleBytes = .ok (sample.marked, sampleLayout) := by
    rfl
  obtain ⟨_, tile, _, _, _, shows, labels⟩ := decodeLayout_tiles read
  exact ⟨read, tile, shows, labels⟩

end Chart

end NovelChart
