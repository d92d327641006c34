import QuantileMonitor.Decimal.Shortest
import QuantileMonitor.Quantile.Sketch

/-! A sketch whose buckets grow by a constant factor, so that every answer is within a chosen factor
of a recorded value. -/

namespace QuantileMonitor.Quantile

open Scalar

/-- Halving the error on one side: a relative error of `a / (1 + a)` stays within the factor
`1 + a` both ways. -/
def innerAccuracy {α : Type} [Add α] [Div α] [Scalar α] (accuracy : α) : α :=
  accuracy / (ofNat 1 + accuracy)

def growth {α : Type} [Sub α] [Mul α] [Div α] [Scalar α] (inner : α) : α :=
  ofNat 2 * inner / (ofNat 1 - inner)

/-- The logarithm of two in two parts. The first has so few bits that a small multiple of it is exact. -/
def lnTwo : Float × Float := (6.93147180369123816490e-01, 1.90821492927058770002e-10)

/-- The logarithm of `1 + f` less `f`, and less what `carry` adds, for `1 + f` between the square roots
of a half and of two: an even polynomial in `f / (2 + f)`, or two terms of the series when `f` is tiny. -/
def lnShortfall (f carry : Float) (tiny : Bool) : Float :=
  let half := 0.5 * f * f
  if tiny then half * (1 - 0.66666666666666666 * f) - carry
  else
    let s := f / (2 + f)
    let z := s * s
    let w := z * z
    let r := z * 6.666666666666735130e-01 + w * (3.999999999940941908e-01 + z * 2.857142874366239149e-01) +
      w * w * (2.222219843214978396e-01 + z * 1.818357216161805012e-01) +
      w * w * w * (1.531383769920937332e-01 + z * 1.479819860511658591e-01)
    half - (s * (half + r) + carry)

/-- The logarithm of `1 + x` for `x` in `[0, 3)`. A larger `1 + x` is halved until it is below the root
of two, and what it loses in rounding is added back. -/
def lnOnePlus (x : Float) : Float :=
  if x < 0.4142136573791504 then x - lnShortfall x 0 false
  else
    let u := 1 + x
    let lost := (if u < 2 then x - (u - 1) else 1 - (u - x)) / u
    let (k, m) : Float × Float := if u < 2 then (0, u) else (1, u / 2)
    let (k, m, tiny) : Float × Float × Bool :=
      if m < 1.4142131805419922 then (k, m, m < 1.0000009536743164)
      else (k + 1, m / 2, 1.9999971389770508 ≤ m)
    k * lnTwo.1 - (lnShortfall (m - 1) (k * lnTwo.2 + lost) tiny - (m - 1))

structure LogScale where
  accuracy : Float
  inner : Float
  lnFactor : Float
  /-- Where in its bucket the number stands that answers for it. -/
  centre : Float

namespace LogScale

def ofAccuracy (accuracy : Float) : LogScale :=
  let inner := innerAccuracy accuracy
  { accuracy, inner
    lnFactor := lnOnePlus (growth inner)
    centre := 2 / (1 + (1 + growth inner)) }

def key (s : LogScale) (v : Nat) : Nat := whole ((ofNat v : Float).log / s.lnFactor).ceil

def value (s : LogScale) (k : Nat) : Float := ((ofNat k : Float) * s.lnFactor).exp * s.centre

def grid (s : LogScale) : Grid Float := ⟨s.key, s.value⟩

def agrees (s t : LogScale) : Bool := s.inner == t.inner && s.grid.room == t.grid.room

end LogScale

structure AccuracyMismatch where
  left : Float
  right : Float

def AccuracyMismatch.message (e : AccuracyMismatch) : String :=
  "cannot merge sketches with different accuracy (" ++ Decimal.shortest e.left ++ " vs " ++
    Decimal.shortest e.right ++ ")"

structure LogSketch where
  scale : LogScale
  body : Sketch

namespace LogSketch

def empty (accuracy : Float) : LogSketch := ⟨.ofAccuracy accuracy, .empty⟩

def count (s : LogSketch) : Nat := s.body.count

def insert (s : LogSketch) (v : Nat) : LogSketch :=
  { s with body := s.body.insert s.scale.key v }

def merge (s other : LogSketch) : Except AccuracyMismatch LogSketch :=
  if s.scale.agrees other.scale then .ok { s with body := s.body.merge other.body }
  else .error ⟨s.scale.accuracy, other.scale.accuracy⟩

def copy (s : LogSketch) : LogSketch := { s with body := s.body.copy }

def reset (s : LogSketch) : LogSketch := { s with body := .empty }

def quantile (s : LogSketch) (q : Float) : Option Float := s.body.quantile s.scale.grid q

def bucketCount (s : LogSketch) : Nat := s.body.bucketCount s.scale.key

def memory (s : LogSketch) : Nat := 8 * s.bucketCount

end LogSketch

end QuantileMonitor.Quantile
