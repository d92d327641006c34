import QuantileMonitor.Entity

/-! The latest value of each polled entity, one cell for each key. -/

namespace QuantileMonitor

structure Gauge where
  keys : Array EntityKey
  cells : Array Nat

namespace Gauge

def ofKeys (keys : Array EntityKey) : Gauge := ⟨keys, Array.replicate keys.size 0⟩

def store (g : Gauge) (i v : Nat) : Gauge := { g with cells := g.cells.setIfInBounds i v }

def load (g : Gauge) (i : Nat) : Option Nat := g.cells[i]?

/-- The cell of the first position that carries the key. -/
def get? (g : Gauge) (key : EntityKey) : Option Nat := (g.keys.idxOf? key).bind g.load

end Gauge

end QuantileMonitor
