import QuantileMonitor.Frame.Cell
import QuantileMonitor.Ingest.Counters
import QuantileMonitor.Registry

/-! The line below the tables: how many samples there are, how fast they come, and how many were lost. -/

namespace QuantileMonitor.Frame

open Scalar

def perSecond (n : Nat) (s : Span) : Nat :=
  if 0 < s.toFloat then whole (ofNat n / s.toFloat : Float) else 0

/-- Drops are told from the first one on, with those that no earlier frame has told. -/
def dropNote (dropped recent : Nat) : String :=
  if dropped = 0 then "" else " | Dropped: " ++ count dropped ++ " (+" ++ count recent ++ ")"

abbrev Mark := Option (Instant × Nat)

def rateNow {γ : Type} (last : Mark) (s : Snapshot γ) : Nat :=
  match last with
  | none => perSecond s.totalCount (.between s.startedAt s.takenAt)
  | some (time, n) => perSecond (s.totalCount - n) (.between time s.takenAt)

def kibibytes (bytes : Nat) : Nat := (bytes + 1023) / 1024

def summary {γ : Type} (last : Mark) (s : Snapshot γ) (totals : Ingest.Totals) (recent : Nat) : String :=
  "Total: " ++ count s.totalCount ++ " samples | Rate: " ++
    count (perSecond s.totalCount (.between s.startedAt s.takenAt)) ++ "/s | Now: " ++
    count (rateNow last s) ++ "/s" ++ dropNote totals.dropped recent ++
    s!" | Estimators: ~{kibibytes s.memory}KB"

end QuantileMonitor.Frame
