import Std.Data.HashMap
import QuantileMonitor.Entity

/-! A bounded table of operations in flight, which matches each completion to its issue. -/

namespace QuantileMonitor.Ingest

structure Completion where
  entity : EntityKey
  elapsed : Nat
deriving DecidableEq

structure Correlator where
  capacity : Nat
  issued : Std.HashMap Nat (EntityKey × Nat)

namespace Correlator

def defaultCapacity : Nat := 65536

def empty (capacity : Nat) : Correlator := ⟨capacity, ∅⟩

def inFlight (c : Correlator) : Nat := c.issued.size

/-- An operation in flight is issued anew; a new one is refused by a full table. -/
def issue (c : Correlator) (operation : Nat) (entity : EntityKey) (time : Nat) : Bool × Correlator :=
  if c.capacity ≤ c.inFlight && !c.issued.contains operation then (false, c)
  else (true, { c with issued := c.issued.insert operation (entity, time) })

def complete (c : Correlator) (operation time : Nat) : Option Completion × Correlator :=
  match c.issued[operation]? with
  | none => (none, c)
  | some (entity, start) => (some ⟨entity, time - start⟩, { c with issued := c.issued.erase operation })

def clear (c : Correlator) : Correlator := { c with issued := ∅ }

end Correlator

end QuantileMonitor.Ingest
