import NovelChart.Chart.Basic
import NovelChart.Command.Codec

/-!
The binary form of charts: header, command stream, label table. A shuffled body is put in order
first; the header and the ordered body together are the plain image, and every offset, also that
of a fault, is an offset into it. Reading reports where each part lies in the plain image.
-/

namespace NovelChart

/-- A range of offsets. -/
structure Extent where
  start : Nat
  stop : Nat
  deriving DecidableEq, Repr

/-- Where the parts of a chart lie in its plain image. -/
structure Layout where
  plain : List UInt8
  header : Extent
  records : List Span
  labels : Extent
  deriving DecidableEq, Repr

namespace Header

/-- Reads the header of a chart. -/
def decode (c : Cursor) : Except FormatError (Step Header) := do
  let (version, c) ← c.u32
  checkVersion version
  let (flags, c) ← c.u8
  if isScrambled flags then
    let (chunkSize, c) ← c.i32
    let (seed, c) ← c.u32
    return (⟨version, flags, some ⟨chunkSize, seed⟩⟩, c)
  else return (⟨version, flags, none⟩, c)

/-- The bytes of a header. The mark of a shuffled body follows the parameters. -/
def encode (h : Header) : List UInt8 :=
  Bytes.u32 h.version ++ markScrambled h.flags h.scramble.isSome ::
    match h.scramble with
    | some params => Bytes.i32 params.chunkSize ++ Bytes.u32 params.seed
    | none => []

end Header

namespace Label

/-- The fewest bytes of a label: one with an empty name. -/
def minSize : Nat := 8

/-- Reads a label of a chart with a number of commands. -/
def decode (r : Reading) (commands : Nat) (start : Cursor) : Except FormatError (Step Label) := do
  let (name, c) ← start.text r
  let (target, c) ← c.u32
  if commands < target.toNat then .error (start.error (.badLabel name target.toNat commands))
  else return (⟨name, target.toNat⟩, c)

/-- Reads the label table. -/
def decodeTable (r : Reading) (commands : Nat) (start : Cursor) :
    Except FormatError (Step (List Label)) := do
  let (count, c) ← start.u32
  if !c.admits r count.toNat minSize then .error (start.error .truncated)
  else Cursor.many (decode r commands) count.toNat c

/-- The bytes of labels of a chart with a number of commands. -/
def encodeAll (e : Encoding) (commands : Nat) : List Label → Except Error (List UInt8)
  | [] => .ok []
  | l :: ls =>
    if commands < l.target then .error (.labelOutOfRange l.name l.target commands)
    else do
      let name ← e.write l.name
      let rest ← encodeAll e commands ls
      return Bytes.counted name ++ Bytes.count l.target ++ rest

/-- The bytes of the label table. -/
def encodeTable (e : Encoding) (commands : Nat) (labels : List Label) :
    Except Error (List UInt8) := do
  let bytes ← encodeAll e commands labels
  return Bytes.count labels.length ++ bytes

end Label

namespace Command

/-- Reads the command stream: its count, its size in bytes, and the records. -/
def decodeStream (r : Reading) (start : Cursor) :
    Except FormatError (Step (List (Command × Span))) := do
  let (count, sized) ← start.u32
  let (size, c) ← sized.u32
  if !c.admits r count.toNat minSize then .error (start.error .truncated)
  else
    let (records, behind) ← Cursor.many (decode r) count.toNat c
    let actual := behind.offset - c.offset
    if actual ≠ size.toNat then .error (sized.error (.streamSize size.toNat actual))
    else return (records, behind)

/-- The records of commands. -/
def encodeAll (e : Encoding) : List Command → Except Error (List UInt8)
  | [] => .ok []
  | c :: cs => do
    let bytes ← c.encode e
    let rest ← encodeAll e cs
    return bytes ++ rest

/-- The bytes of the command stream. -/
def encodeStream (e : Encoding) (commands : List Command) : Except Error (List UInt8) := do
  let bytes ← encodeAll e commands
  return Bytes.count commands.length ++ Bytes.counted bytes

end Command

namespace Chart

/-- Reads a chart and where its parts lie. -/
def decodeLayout (r : Reading) (bytes : List UInt8) : Except FormatError (Chart × Layout) := do
  let (header, c) ← Header.decode (Cursor.ofBytes bytes)
  let body ← match header.scramble with
    | some params => Shuffle.unscramble c.rest params c.offset
    | none => pure c.rest
  -- Offsets go on behind the header, so faults point into the plain image.
  let (records, atLabels) ← Command.decodeStream r { c with rest := body }
  let (labels, behind) ← Label.decodeTable r records.length atLabels
  behind.finish
  return (⟨header, r.encoding, records.map (·.1), labels⟩,
    { plain := bytes.take c.offset ++ body
      header := ⟨0, c.offset⟩
      records := records.map (·.2)
      labels := ⟨atLabels.offset, behind.offset⟩ })

/-- The chart that a byte string holds. -/
def ofBytes (e : Encoding) (bytes : List UInt8) : Except FormatError Chart := do
  let (chart, _) ← decodeLayout ⟨e, true⟩ bytes
  return chart

/-- The body of the plain image: command stream and label table. -/
def encodeBody (c : Chart) : Except Error (List UInt8) := do
  let stream ← Command.encodeStream c.encoding c.commands
  let labels ← Label.encodeTable c.encoding c.length c.labels
  return stream ++ labels

/-- The plain image of a chart. -/
def toPlainBytes (c : Chart) : Except Error (List UInt8) := do
  let body ← c.encodeBody
  return c.header.encode ++ body

/-- The bytes of a chart, shuffled if its header says so. -/
def toBytes (c : Chart) : Except Error (List UInt8) := do
  let body ← c.encodeBody
  match c.header.scramble with
  | some params =>
    let stored ← (Shuffle.scramble body params).mapError .format
    return c.header.encode ++ stored
  | none => return c.header.encode ++ body

end Chart

end NovelChart
