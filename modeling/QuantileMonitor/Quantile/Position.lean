import QuantileMonitor.Scalar

/-! Where a quantile falls among ordered values: the quantile `q` of `n` values sits at position
`q * (n - 1)`, and between two ranks the value is interpolated. -/

namespace QuantileMonitor.Quantile

open Scalar

/-- `q` moved into the unit interval; what is no number counts as 0. -/
def unit {α : Type} [LT α] [DecidableLT α] [Scalar α] (q : α) : α :=
  if ofNat 0 < q then (if ofNat 1 < q then ofNat 1 else q) else ofNat 0

def position {α : Type} [Sub α] [Mul α] [LT α] [DecidableLT α] [Scalar α]
    (q : α) (count : Nat) : Nat × α :=
  let p := unit q * ofNat (count - 1)
  (whole p, p - ofNat (whole p))

def interpolate {α : Type} [Add α] [Sub α] [Mul α] (lo hi t : α) : α := lo + (hi - lo) * t

/-- The value at a position, given the value at each rank. On a rank only that rank is read. -/
def readAt {α : Type} [Add α] [Sub α] [Mul α] [LT α] [DecidableLT α] [Scalar α]
    (value : Nat → Nat) (p : Nat × α) : α :=
  let lo : α := ofNat (value p.1)
  if ofNat 0 < p.2 then interpolate lo (ofNat (value (p.1 + 1))) p.2 else lo

end QuantileMonitor.Quantile
