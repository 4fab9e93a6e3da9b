import NovelChart.Bytes.Fault
import NovelChart.Shuffle.Generator

/-!
Shuffled images. The plain bytes are cut into chunks of one size, the last being whatever is left,
and the chunks are stored in an order that a seed determines. The last chunk always stays last, so a
short chunk does not disturb the others.
-/

namespace NovelChart

/-- The chunk size and seed of a shuffled image. -/
structure ScrambleParams where
  chunkSize : Int32
  seed : UInt32
  deriving DecidableEq, Repr

namespace Shuffle

/-- Takes one number after another out of a list; the last number of the list is only taken when it
is alone. The first argument is the length of the list. -/
def drawAll : Nat → List Nat → Generator → List Nat
  | 0, _, _ => []
  | n + 1, values, g =>
    let (i, g) := if n = 0 then (0, g) else g.range 0 (n - 1)
    values.getD i 0 :: drawAll n (values.eraseIdx i) g

/-- The numbers below `count` in the order in which they are drawn: the chunk stored at place `p` is
the plain chunk `(drawOrder count seed)[p]`. -/
def drawOrder (count : Nat) (seed : UInt32) : List Nat :=
  drawAll count (List.range count) (Generator.ofSeed seed)

/-- Where each plain chunk is stored: the inverse of the order of drawing. -/
def positions (count : Nat) (seed : UInt32) : List Nat :=
  let order := drawOrder count seed
  (List.range count).map fun k => order.idxOf k

/-- The constant that is combined with a stored seed. -/
def seedKey : UInt32 := 0xF8EA

/-- How an image of a given length is cut and reordered. -/
structure Plan where
  /-- The size of a full chunk. -/
  chunk : Nat
  /-- The length of the image. -/
  length : Nat
  /-- The plain chunk stored at each place. -/
  order : List Nat
  deriving DecidableEq, Repr

namespace Plan

/-- The size of a plain chunk. -/
def size (p : Plan) (k : Nat) : Nat :=
  if k + 1 = p.order.length then p.length - k * p.chunk else p.chunk

/-- The offset of each stored place. -/
def offsets (p : Plan) : List Nat :=
  (p.order.foldl (fun (offsets, offset) k => (offsets ++ [offset], offset + p.size k))
    (([], 0) : List Nat × Nat)).1

/-- A plain chunk cut out of the plain image. -/
def plainChunk (p : Plan) (plain : List UInt8) (k : Nat) : List UInt8 :=
  (plain.drop (k * p.chunk)).take (p.size k)

/-- A plain chunk cut out of the stored image. -/
def storedChunk (p : Plan) (offsets : List Nat) (stored : List UInt8) (k : Nat) : List UInt8 :=
  (stored.drop (offsets.getD (p.order.idxOf k) 0)).take (p.size k)

/-- The plain image in its stored order. -/
def store (p : Plan) (plain : List UInt8) : List UInt8 :=
  p.order.flatMap (p.plainChunk plain)

/-- The stored image in its plain order. -/
def restore (p : Plan) (stored : List UInt8) : List UInt8 :=
  (List.range p.order.length).flatMap (p.storedChunk p.offsets stored)

end Plan

/-- The plan for an image of a given length; the chunk size has to be positive. -/
def plan (params : ScrambleParams) (length offset : Nat) : Except FormatError Plan :=
  if params.chunkSize.toInt ≤ 0 then .error ⟨none, offset, .badScramble params.chunkSize⟩
  else
    let chunk := params.chunkSize.toInt.toNat
    let count := (length + chunk - 1) / chunk
    .ok ⟨chunk, length, drawOrder count (params.seed ^^^ seedKey)⟩

/-- The stored form of a plain image. -/
def scramble (plain : List UInt8) (params : ScrambleParams) : Except FormatError (List UInt8) := do
  let plan ← plan params plain.length 0
  return plan.store plain

/-- The plain form of a stored image that begins at an offset of its file. -/
def unscramble (stored : List UInt8) (params : ScrambleParams) (offset : Nat) :
    Except FormatError (List UInt8) := do
  let plan ← plan params stored.length offset
  return plan.restore stored

end Shuffle

end NovelChart
