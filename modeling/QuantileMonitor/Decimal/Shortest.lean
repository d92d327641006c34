import QuantileMonitor.Decimal.Positional

/-! The shortest decimal that reads back as the same double, and of those the nearest to it. -/

namespace QuantileMonitor.Decimal

structure Rounding where
  value : Nat
  low : Nat
  high : Nat
  den : Nat
  closed : Bool

namespace Rounding

/-- Half a unit each way; a quarter below a power of two, where the doubles get denser. -/
def ofFinite (m : Nat) (e : Int) : Rounding :=
  let below := if m = Double.hidden ∧ e ≠ -1074 then 1 else 2
  let at_ (quarters : Nat) := (quotient quarters (e - 2)).1
  { value := at_ (4 * m), low := at_ (4 * m - below), high := at_ (4 * m + 2)
    den := (quotient m (e - 2)).2
    closed := m % 2 = 0 }

def multiple (r : Rounding) (power : Int) : Option Nat :=
  let up := Nat.pow 10 (-power).toNat
  let unit := r.den * Nat.pow 10 power.toNat
  let value := r.value * up
  let inside (n : Nat) : Bool :=
    if r.closed then r.low * up ≤ n * unit && n * unit ≤ r.high * up
    else r.low * up < n * unit && n * unit < r.high * up
  let n := value / unit
  match inside n, inside (n + 1) with
  | true, true => some (if 2 * (value % unit) < unit then n else n + 1)
  | true, false => some n
  | false, true => some (n + 1)
  | false, false => none

def search (r : Rounding) (leading : Int) : Nat → Nat → Nat × Int
  | 0, digits =>
    let power := leading - digits
    (r.value * Nat.pow 10 (-power).toNat / (r.den * Nat.pow 10 power.toNat), power)
  | fuel + 1, digits =>
    let power := leading - digits
    match r.multiple power with
    | some n => if n = Nat.pow 10 (digits + 1) then (1, leading + 1) else (n, power)
    | none => search r leading fuel (digits + 1)

end Rounding

def shortestDigits (m : Nat) (e : Int) : Nat × Int :=
  (Rounding.ofFinite m e).search (leadingPower (quotient m e)) 17 0

def shortest (x : Float) : String :=
  match Double.ofFloat x with
  | .nan => "NaN"
  | .infinite negative => signed negative "inf".toList
  | .finite negative 0 _ => signed negative ['0']
  | .finite negative m e =>
    let (n, power) := shortestDigits m e
    signed negative (positional n power)

end QuantileMonitor.Decimal
