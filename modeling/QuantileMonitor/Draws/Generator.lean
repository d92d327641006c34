import QuantileMonitor.Draws
import QuantileMonitor.Word

/-! A seeded generator of 64-bit words with 256 bits of state, and its draws below a bound. A draw
takes the high word of word times bound and rejects the words that would favour some results. -/

namespace QuantileMonitor.Draws

structure Generator where
  s0 : UInt64
  s1 : UInt64
  s2 : UInt64
  s3 : UInt64
deriving DecidableEq, Repr

def rotateLeft (x : UInt64) (k : UInt64) : UInt64 := (x <<< k) ||| (x >>> (64 - k))

namespace Generator

def seedStep (state : UInt64) : UInt32 × UInt64 :=
  let state := state * 6364136223846793005 + 11634580027462260723
  let x := (((state >>> 18) ^^^ state) >>> 27).toUInt32
  let turn := (state >>> 59).toUInt32
  ((x >>> turn) ||| (x <<< (32 - turn)), state)

def seedWord (state : UInt64) : UInt64 × UInt64 :=
  let (lo, state) := seedStep state
  let (hi, state) := seedStep state
  (lo.toUInt64 ||| (hi.toUInt64 <<< 32), state)

def ofSeed (seed : UInt64) : Generator :=
  let (s0, seed) := seedWord seed
  let (s1, seed) := seedWord seed
  let (s2, seed) := seedWord seed
  let (s3, _) := seedWord seed
  ⟨s0, s1, s2, s3⟩

def next (g : Generator) : UInt64 × Generator :=
  let r := rotateLeft (g.s0 + g.s3) 23 + g.s0
  let t := g.s1 <<< 17
  let s2 := g.s2 ^^^ g.s0
  let s3 := g.s3 ^^^ g.s1
  let s1 := g.s1 ^^^ s2
  let s0 := g.s0 ^^^ s3
  (r, ⟨s0, s1, s2 ^^^ t, rotateLeft s3 45⟩)

/-- The last low word that is accepted: one below the bound moved up to the top bit. -/
def zone (bound : Nat) : Nat := bound <<< (63 - bound.log2) - 1

def belowIn (bound : Nat) : Nat → Generator → Nat × Generator
  | 0, g => (0, g)
  | tries + 1, g =>
    let (word, g) := g.next
    let product := word.toNat * bound
    if product % Word.bound ≤ zone bound then (product / Word.bound, g) else belowIn bound tries g

end Generator

def Generator.forRank (rank : Nat) : Generator × Generator :=
  (.ofSeed (2 * rank).toUInt64, .ofSeed (2 * rank + 1).toUInt64)

instance : Draws Generator where
  below bound := Generator.belowIn bound 1024

end QuantileMonitor.Draws
