import Std.Data.HashSet
import QuantileMonitor.Entity

/-! Which entities are kept. A list of wanted keys decides alone; without one, devices may be limited
to a tracked set and all else passes. -/

namespace QuantileMonitor.Ingest

structure Filter where
  wanted : Option (Std.HashSet EntityKey)
  tracked : Option (Std.HashSet DeviceId)

namespace Filter

def all : Filter := ⟨none, none⟩

/-- An empty list means no filtering. -/
def ofKeys (keys : List EntityKey) : Filter :=
  ⟨if keys.isEmpty then none else some (.ofList keys), none⟩

def withTracked (f : Filter) (devices : List DeviceId) : Filter :=
  { f with tracked := some (.ofList devices) }

def allows (f : Filter) (key : EntityKey) : Bool :=
  match f.wanted, f.tracked, key with
  | some wanted, _, key => wanted.contains key
  | none, some tracked, .device id => tracked.contains id
  | none, _, _ => true

end Filter

end QuantileMonitor.Ingest
