import QuantileMonitor.Quantile.Bins
import QuantileMonitor.Quantile.Position
import QuantileMonitor.Word

/-! Counts of values by bucket. Zeros are counted apart and the smallest and largest positive values
are kept exactly; between them a bucket answers with the number that stands for it. -/

namespace QuantileMonitor.Quantile

open Scalar

/-- A scale of buckets: the bucket of a positive value, and the number that stands for a bucket. -/
structure Grid (α : Type) where
  key : Nat → Nat
  value : Nat → α

/-- No sketch has more buckets than this. -/
def Grid.binLimit : Nat := 65536

/-- Buckets for all values of a word, with two to spare. -/
def Grid.room {α : Type} (g : Grid α) : Nat := min (g.key Word.top + 2) Grid.binLimit

structure Sketch where
  bins : Bins
  zeros : Nat
  count : Nat
  least : Option Nat
  greatest : Nat

namespace Sketch

def empty : Sketch := ⟨.empty, 0, 0, none, 0⟩

def lesser : Option Nat → Option Nat → Option Nat
  | none, b => b
  | a, none => a
  | some a, some b => some (min a b)

def insert (key : Nat → Nat) (s : Sketch) (v : Nat) : Sketch :=
  if v = 0 then { s with count := s.count + 1, zeros := s.zeros + 1 }
  else
    { s with
      bins := s.bins.add (key v) 1
      count := s.count + 1
      least := lesser s.least (some v)
      greatest := max s.greatest v }

def merge (s other : Sketch) : Sketch where
  bins := s.bins.union other.bins
  zeros := s.zeros + other.zeros
  count := s.count + other.count
  least := lesser s.least other.least
  greatest := max s.greatest other.greatest

def copy (s : Sketch) : Sketch := { s with bins := Bins.empty.union s.bins }

def bucketCount (key : Nat → Nat) (s : Sketch) : Nat :=
  match s.least with
  | none => 0
  | some least => key s.greatest + 1 - key least

/-- The positive value of a rank that is neither first nor last is looked up half a rank on, as a
share of the ranks, so that rounding cannot lead to another rank. All of the ranks lead to the largest
value itself. -/
def inner {α : Type} [Add α] [Mul α] [Div α] [LT α] [DecidableLT α] [Scalar α] (g : Grid α)
    (s : Sketch) (rank positive : Nat) : Option α :=
  let last : α := ofNat (positive - 1)
  let share := (ofNat rank + half) / last
  if share < ofNat 1 then (s.bins.keyAtRank (whole (share * last))).map g.value
  else some (ofNat s.greatest)

def quantile {α : Type} [Add α] [Mul α] [Div α] [LT α] [DecidableLT α] [Scalar α]
    (g : Grid α) (s : Sketch) (q : α) : Option α :=
  if s.count = 0 then none
  else
    let rank := whole (unit q * ofNat (s.count - 1))
    if rank < s.zeros then some (ofNat 0)
    else
      let positive := s.count - s.zeros
      let rank := rank - s.zeros
      if rank = 0 then some (ofNat (s.least.getD Word.top))
      else if positive ≤ rank + 1 then some (ofNat s.greatest)
      else inner g s rank positive

end Sketch

end QuantileMonitor.Quantile
