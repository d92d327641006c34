import QuantileMonitor.Scalar

/-! A bar of cells that shows a current value against a long-term one. -/

namespace QuantileMonitor.Frame

open Scalar

def scaled {α : Type} [Add α] [Mul α] [Div α] [LT α] [DecidableLT α] [Scalar α]
    (value full : α) (width : Nat) : Nat :=
  whole (clamp (ofNat 0) (ofNat width) (value / full * ofNat width + half))

/-- No cells for a value that is not finite, or when nothing fills the bar. -/
def barCells (value full : Float) (width : Nat) : Nat :=
  if full ≤ 0 || !value.isFinite then 0 else scaled value full width

def barCell (current longTerm i : Nat) : Char :=
  if i ≤ current then '█' else if i ≤ longTerm then '░' else '-'

def bar (current longTerm width : Nat) : List Char :=
  (List.range' 1 width).map (barCell current longTerm)

end QuantileMonitor.Frame
