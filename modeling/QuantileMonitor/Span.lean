import QuantileMonitor.Scalar

/-! Lengths of time in whole nanoseconds, and instants as the time since a common origin. -/

namespace QuantileMonitor

structure Span where
  nanoseconds : Nat
deriving DecidableEq

/-- Nanoseconds since the origin. -/
abbrev Instant := Nat

namespace Span

def perSecond : Nat := 1000000000

def zero : Span := ⟨0⟩

def ofSeconds (n : Nat) : Span := ⟨n * perSecond⟩

def ofMilliseconds (n : Nat) : Span := ⟨n * 1000000⟩

def seconds (s : Span) : Nat := s.nanoseconds / perSecond

def subsecond (s : Span) : Nat := s.nanoseconds % perSecond

/-- In seconds; the parts are converted one by one. -/
def toFloat (s : Span) : Float :=
  Scalar.ofNat s.seconds + Scalar.ofNat s.subsecond / 1000000000

def between (start stop : Instant) : Span := ⟨stop - start⟩

end Span

end QuantileMonitor
