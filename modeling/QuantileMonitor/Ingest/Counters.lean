/-! What became of the samples that were offered. -/

namespace QuantileMonitor.Ingest

structure Totals where
  received : Nat
  dropped : Nat
  filtered : Nat
  parseErrors : Nat
deriving DecidableEq

structure Counters where
  totals : Totals
  unreported : Nat
deriving DecidableEq

namespace Counters

def zero : Counters := ⟨⟨0, 0, 0, 0⟩, 0⟩

def receive (c : Counters) : Counters :=
  { c with totals := { c.totals with received := c.totals.received + 1 } }

def drop (c : Counters) : Counters :=
  { c with
    totals := { c.totals with dropped := c.totals.dropped + 1 }
    unreported := c.unreported + 1 }

def filter (c : Counters) : Counters :=
  { c with totals := { c.totals with filtered := c.totals.filtered + 1 } }

def parseError (c : Counters) : Counters :=
  { c with totals := { c.totals with parseErrors := c.totals.parseErrors + 1 } }

def takeDropped (c : Counters) : Nat × Counters := (c.unreported, { c with unreported := 0 })

end Counters

end QuantileMonitor.Ingest
