import NovelChart.Chart.Codec
import NovelChart.Digest
import NovelChart.Notice
import NovelChart.Script.Compile
import NovelChart.Script.Print

/-!
Certification of charts: a chart is read and written again, and every text block is printed as a
script and compiled again. The report holds the digests of both images, the parts where they differ,
and how each text block fared. Only bytes that are no chart are an error.
-/

namespace NovelChart

/-- A part of a chart that came out different. -/
inductive Divergence
  | header
  | command (line : Nat)
  | commandCount (before after : Nat)
  | labels
  /-- The new image cannot be read. -/
  | undecodable (e : FormatError)
  deriving DecidableEq, Repr

/-- The wording of a divergence. -/
def Divergence.text : Divergence → String
  | header => "Header"
  | command line => "Command \x7b line: " ++ toString line ++ " \x7d"
  | commandCount before after =>
    "CommandCount \x7b original: " ++ toString before ++ ", rebuilt: " ++ toString after ++ " \x7d"
  | labels => "Labels"
  | undecodable e => "Undecodable \x7b message: " ++ Text.quoted e.message ++ " \x7d"

/-- How a text block fared. -/
inductive BlockResult
  | same
  | different
  | failed (e : Error)
  deriving DecidableEq, Repr

/-- The wording of a result that is no success. -/
def BlockResult.message? : BlockResult → Option String
  | same => none
  | different => some "recompiled block differs from the original bytes"
  | failed e => some e.message

/-- The result of the text block at a line. -/
structure BlockCheck where
  line : Nat
  result : BlockResult
  deriving DecidableEq, Repr

/-- Whether the text block came out the same. -/
def BlockCheck.isOk (c : BlockCheck) : Bool :=
  c.result == .same

/-- The outcome of a certification. -/
structure Report where
  /-- The digest of the bytes that were read. -/
  digest : String
  /-- The digest of the bytes that were written again. -/
  rebuiltDigest : String
  divergences : List Divergence
  blocks : List BlockCheck
  deriving DecidableEq, Repr

namespace Report

/-- Whether both images have the same digest. -/
def isIdentical (r : Report) : Bool :=
  r.digest == r.rebuiltDigest

/-- The text blocks that did not come out the same. -/
def failedBlocks (r : Report) : List BlockCheck :=
  r.blocks.filter fun c => !c.isOk

/-- Whether the chart is certified. -/
def isOk (r : Report) : Bool :=
  r.isIdentical && r.blocks.all BlockCheck.isOk

/-- What is worth telling of a report. -/
def notice (r : Report) : Notice :=
  if r.isOk then .roundTrip r.blocks.length
  else .roundTripFailed r.divergences.length r.failedBlocks.length

end Report

/-- The bytes of a range. -/
def Layout.bytes (l : Layout) (start stop : Nat) : List UInt8 :=
  (l.plain.take stop).drop start

/-- The parts in which two images differ. -/
def Layout.divergences (a b : Layout) : List Divergence :=
  (if a.bytes a.header.start a.header.stop = b.bytes b.header.start b.header.stop then []
    else [.header]) ++
  (if a.records.length = b.records.length then []
    else [.commandCount a.records.length b.records.length]) ++
  ((a.records.zip b.records).zipIdx.filterMap fun ((x, y), line) =>
    if a.bytes x.start x.stop = b.bytes y.start y.stop then none else some (.command line)) ++
  (if a.bytes a.labels.start a.labels.stop = b.bytes b.labels.start b.labels.stop then []
    else [.labels])

/-- How text blocks are printed and compiled again. -/
structure Validator where
  textOnly : Bool := false
  keepComments : Bool := false
  deriving DecidableEq, Repr

namespace Validator

/-- The bytes of a text block that went through its script. -/
def rebuildBlock (v : Validator) (e : Encoding) (block : TextBlock) :
    Except Error (List UInt8) := do
  let script := Script.print v.textOnly block.tokens
  let tokens ← (Script.compile v.keepComments script).mapError .script
  { block with tokens }.encode e

/-- How a text block fares whose bytes are known. -/
def checkBlock (v : Validator) (e : Encoding) (block : TextBlock) (bytes : List UInt8) :
    BlockResult :=
  match v.rebuildBlock e block with
  | .ok rebuilt => if rebuilt = bytes then .same else .different
  | .error e => .failed e

/-- The checks of the text blocks among commands that begin at a line. -/
def checkBlocks (v : Validator) (e : Encoding) (layout : Layout) :
    List (Command × Span) → Nat → Except Error (List BlockCheck)
  | [], _ => .ok []
  | (command, span) :: rest, line => do
    match command.text? with
    | none => checkBlocks v e layout rest (line + 1)
    | some block =>
      match ← command.textOffset? e with
      | none => checkBlocks v e layout rest (line + 1)
      | some offset =>
        let bytes := layout.bytes (span.bodyStart + offset) span.stop
        let checks ← checkBlocks v e layout rest (line + 1)
        return ⟨line, v.checkBlock e block bytes⟩ :: checks

/-- The parts in which a new image differs from the one that was read. -/
def divergences (e : Encoding) (layout : Layout) (rebuilt : List UInt8) : List Divergence :=
  match Chart.decodeLayout ⟨e, true⟩ rebuilt with
  | .ok (_, other) => layout.divergences other
  | .error e => [.undecodable e]

/-- Certifies a byte string as a chart. -/
def validate (v : Validator) (e : Encoding) (bytes : List UInt8) : Except Error Report := do
  let (chart, layout) ← (Chart.decodeLayout ⟨e, true⟩ bytes).mapError .format
  let rebuilt ← chart.toBytes
  let digest := Digest.sha256Hex bytes
  let rebuiltDigest := Digest.sha256Hex rebuilt
  let divergences := if digest = rebuiltDigest then [] else divergences e layout rebuilt
  let blocks ← v.checkBlocks e layout (chart.commands.zip layout.records) 0
  return { digest, rebuiltDigest, divergences, blocks }

end Validator

end NovelChart
