import QuantileMonitor.Decimal.Shortest
import QuantileMonitor.Span

/-! The texts of single values in a frame. -/

namespace QuantileMonitor.Frame

open Decimal Scalar

def latency (us : Nat) : String :=
  if us < 1000 then s!"{us}µs"
  else if us < 1000000 then s!"{(us + 500) / 1000}ms"
  else fixed 1 (ofNat us / 1000000) ++ "s"

def orDash {α : Type} (text : α → String) : Option α → String
  | none => "-"
  | some x => text x

def latency? : Option Float → String := orDash fun x => latency (whole x.round)

def count (n : Nat) : String :=
  if 1000000000 ≤ n then fixed 1 (ofNat n / 1000000000) ++ "B"
  else if 1000000 ≤ n then fixed 1 (ofNat n / 1000000) ++ "M"
  else if 1000 ≤ n then fixed 1 (ofNat n / 1000) ++ "K"
  else toString n

def elapsed (s : Span) : String :=
  let seconds := s.seconds
  if seconds < 60 then fixed 1 s.toFloat ++ "s"
  else if seconds < 3600 then s!"{seconds / 60}m{seconds % 60}s"
  else s!"{seconds / 3600}h{seconds / 60 % 60}m"

def depth : Option Float → String := orDash (fixed 2)

def share : Option Float → String := orDash fun x => fixed 1 (x * 100) ++ "%"

def percentile (p : Float) : String :=
  if p.isFinite && p.floor == p then s!"P{whole p}" else "P" ++ shortest p

end QuantileMonitor.Frame
