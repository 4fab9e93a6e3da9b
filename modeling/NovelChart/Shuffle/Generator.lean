/-!
The pseudo-random generator behind shuffled charts: five 32-bit words, of which four take part in a
multiply-with-carry step and the fifth holds the carry. Fractions and bounded draws are computed as
binary64 arithmetic would: a draw scales by the exact product rounded to fifty-three bits, a half
going to the even neighbour.
-/

namespace NovelChart.Shuffle

/-- A number rounded to fifty-three significant bits, a half going to the even neighbour. -/
def round53 (n : Nat) : Nat :=
  let unit := Nat.pow 2 (n.log2 - 52)
  let down := n / unit
  let rest := n % unit
  let up := 2 * rest > unit || (2 * rest == unit && down % 2 == 1)
  (if up then down + 1 else down) * unit

/-- The state of the generator. -/
structure Generator where
  s0 : UInt32
  s1 : UInt32
  s2 : UInt32
  s3 : UInt32
  carry : UInt32
  deriving DecidableEq, Repr

/-- One step of the seeding sequence. -/
def scatter (seed : UInt32) : UInt32 :=
  let a := seed ^^^ (seed <<< 13)
  let b := a ^^^ (a >>> 17)
  b ^^^ (b <<< 5)

namespace Generator

/-- The next draw and the state after it. -/
def next (g : Generator) : UInt32 × Generator :=
  let x := g.s3.toUInt64 * 0x7DD4FFC7 + g.s2.toUInt64 * 0x5D4 + g.s1.toUInt64 * 0x6F0 +
    g.s0.toUInt64 * 0x13FB + g.carry.toUInt64
  let drawn := x.toUInt32
  (drawn, ⟨drawn, g.s0, g.s1, g.s2, (x >>> 32).toUInt32⟩)

/-- The state after `n` draws. -/
def skip : Nat → Generator → Generator
  | 0, g => g
  | n + 1, g => skip n g.next.2

/-- The generator of a seed. A zero seed counts as all ones, and the first nineteen draws of every
seed are thrown away. -/
def ofSeed (seed : UInt32) : Generator :=
  let a := scatter (if seed = 0 then 0xFFFFFFFF else seed)
  let b := scatter a
  let c := scatter b
  let d := scatter c
  skip 19 ⟨a, b, c, d, scatter d⟩

/-- A draw from `low` to `high`, both included, and the state after it. -/
def range (low high : Nat) (g : Generator) : Nat × Generator :=
  let (drawn, g) := g.next
  (low + round53 (drawn.toNat * round53 (high - low + 1)) / 0x100000000, g)

end Generator

/-- The binary64 pattern of a draw divided by `2 ^ 32`. -/
def fractionBits (drawn : UInt32) : UInt64 :=
  let n := drawn.toNat
  let exponent := n.log2
  let fraction := (n - Nat.pow 2 exponent) * Nat.pow 2 (52 - exponent)
  if n = 0 then 0 else UInt64.ofNat ((exponent + 991) * 0x10000000000000 + fraction)

end NovelChart.Shuffle
