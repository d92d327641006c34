import Std.Data.ExtTreeMap

/-! A bag of bucket keys: how often each key occurs, walked in ascending order. -/

namespace QuantileMonitor.Quantile

abbrev Bins := Std.ExtTreeMap Nat Nat

namespace Bins

def empty : Bins := ∅

def countOf (b : Bins) (k : Nat) : Nat := b.getD k 0

def add (b : Bins) (k n : Nat) : Bins := b.insert k (b.countOf k + n)

def union (b other : Bins) : Bins := other.foldl add b

/-- The first key at which the counts passed exceed the rank, and the last key beyond all counts. -/
def walk : List (Nat × Nat) → Nat → Option Nat
  | [], _ => none
  | [(k, _)], _ => some k
  | (k, n) :: next :: rest, rank => if rank < n then some k else walk (next :: rest) (rank - n)

def keyAtRank (b : Bins) (rank : Nat) : Option Nat := walk b.toList rank

end Bins

end QuantileMonitor.Quantile
