/-! The numbers in which ranks, positions and quantiles are computed. Doubles are what runs; the
rationals are the exact reading of the same definitions. -/

namespace QuantileMonitor

class Scalar (α : Type) where
  ofNat : Nat → α
  whole : α → Nat

/-- A whole number goes to the nearest double, a half to the even one; back it stays below `2 ^ 64`. -/
instance : Scalar Float where
  ofNat n := n.toFloat
  whole x := x.toUInt64.toNat

instance : Scalar Rat where
  ofNat n := mkRat n 1
  whole x := x.floor.toNat

namespace Scalar

def clamp {α : Type} [LT α] [DecidableLT α] (lo hi x : α) : α :=
  if x < lo then lo else if hi < x then hi else x

def half {α : Type} [Div α] [Scalar α] : α := ofNat 1 / ofNat 2

end Scalar

end QuantileMonitor
