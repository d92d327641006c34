import QuantileMonitor.Draws
import QuantileMonitor.Quantile.Position

/-! A uniform sample of fixed size. The value that arrives as the `n`-th is kept in a full reservoir
exactly when the index drawn below `n` is one of its slots. -/

namespace QuantileMonitor.Quantile

structure Reservoir (γ : Type) where
  capacity : Nat
  samples : Array Nat
  seen : Nat
  sorted : Bool
  reserved : Nat
  draws : γ

namespace Reservoir

variable {γ : Type}

def empty (capacity : Nat) (draws : γ) : Reservoir γ :=
  { capacity, samples := #[], seen := 0, sorted := true, reserved := capacity, draws }

def isFull (r : Reservoir γ) : Bool := r.capacity ≤ r.samples.size

def grown (size reserved : Nat) : Nat :=
  if size < reserved then reserved else max (2 * reserved) (max (size + 1) 4)

/-- The value takes the drawn slot, if there is such a slot. -/
def place (samples : Array Nat) (slot v : Nat) : Array Nat := samples.setIfInBounds slot v

def insert [Draws γ] (r : Reservoir γ) (v : Nat) : Reservoir γ :=
  let ⟨capacity, samples, seen, _, reserved, draws⟩ := r
  if samples.size < capacity then
    let reserved := grown samples.size reserved
    ⟨capacity, samples.push v, seen + 1, false, reserved, draws⟩
  else
    let (slot, draws) := Draws.below (seen + 1) draws
    ⟨capacity, place samples slot v, seen + 1, false, reserved, draws⟩

def ascending (samples : Array Nat) : Array Nat :=
  (samples.toList.mergeSort (· ≤ ·)).toArray

def quantileOf {α : Type} [Add α] [Sub α] [Mul α] [LT α] [DecidableLT α] [Scalar α]
    (sorted : Array Nat) (q : α) : Option α :=
  if sorted.isEmpty then none
  else some (readAt (fun i => sorted.getD i (sorted.back?.getD 0)) (position q sorted.size))

def quantile {α : Type} [Add α] [Sub α] [Mul α] [LT α] [DecidableLT α] [Scalar α]
    (r : Reservoir γ) (q : α) : Option α :=
  quantileOf (if r.sorted then r.samples else ascending r.samples) q

def reset (r : Reservoir γ) : Reservoir γ :=
  { r with samples := #[], seen := 0, sorted := true }

def snapshot (r : Reservoir γ) : Reservoir γ :=
  { r with
    samples := if r.sorted then r.samples else ascending r.samples
    sorted := true
    reserved := r.samples.size }

def memory (r : Reservoir γ) : Nat := 8 * r.reserved

end Reservoir

end QuantileMonitor.Quantile
