import QuantileMonitor.Scalar
import QuantileMonitor.Word

/-! Statistics that are kept exactly, whatever the estimator. -/

namespace QuantileMonitor.Window

structure Exact where
  count : Nat
  /-- Stops at the largest word. -/
  sum : Nat
  nonzero : Nat
  least : Option Nat
  max : Nat
deriving DecidableEq

namespace Exact

def empty : Exact := ⟨0, 0, 0, none, 0⟩

def record (e : Exact) (v : Nat) : Exact where
  count := e.count + 1
  sum := Word.addSat e.sum v
  nonzero := if 0 < v then e.nonzero + 1 else e.nonzero
  least := some (e.least.elim v (Nat.min v))
  max := Nat.max e.max v

def min (e : Exact) : Nat := e.least.getD 0

def perCount (e : Exact) (n : Nat) : Option Float :=
  if e.count = 0 then none else some (Scalar.ofNat n / Scalar.ofNat e.count)

def mean (e : Exact) : Option Float := e.perCount e.sum

def utilization (e : Exact) : Option Float := e.perCount e.nonzero

end Exact

end QuantileMonitor.Window
