import QuantileMonitor.Quantile.Position

/-! One exact counter for each value up to a clamp; larger values count at the clamp. -/

namespace QuantileMonitor.Quantile

structure Histogram where
  maxValue : Nat
  buckets : Vector Nat (maxValue + 1)
  count : Nat
deriving DecidableEq

namespace Histogram

def empty (maxValue : Nat) : Histogram :=
  ⟨maxValue, Vector.replicate (maxValue + 1) 0, 0⟩

def slot (h : Histogram) (v : Nat) : Fin (h.maxValue + 1) :=
  ⟨min v h.maxValue, Nat.lt_succ_of_le (Nat.min_le_right _ _)⟩

def add (h : Histogram) (v n : Nat) : Histogram :=
  let i := h.slot v
  { h with buckets := h.buckets.set i (h.buckets[i] + n), count := h.count + n }

def insert (h : Histogram) (v : Nat) : Histogram := h.add v 1

def bucket (h : Histogram) (v : Nat) : Nat := h.buckets[h.slot v]

def merge (h other : Histogram) : Histogram :=
  Fin.foldl (other.maxValue + 1) (fun h i => h.add i other.buckets[i]) h

def reset (h : Histogram) : Histogram := empty h.maxValue

/-- The first value from `i` on at which `seen` and the counts passed exceed the rank. -/
def scan (h : Histogram) (rank i seen : Nat) : Nat :=
  if hi : i < h.maxValue + 1 then
    let seen := seen + h.buckets[i]
    if rank < seen then i else scan h rank (i + 1) seen
  else h.maxValue
termination_by h.maxValue + 1 - i

def valueAtRank (h : Histogram) (rank : Nat) : Nat := h.scan rank 0 0

def quantile {α : Type} [Add α] [Sub α] [Mul α] [LT α] [DecidableLT α] [Scalar α]
    (h : Histogram) (q : α) : Option α :=
  if h.count = 0 then none else some (readAt h.valueAtRank (position q h.count))

def memory (h : Histogram) : Nat := 8 * (h.maxValue + 1)

end Histogram

end QuantileMonitor.Quantile
