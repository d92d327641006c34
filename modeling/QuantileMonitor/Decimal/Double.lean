/-! The exact value of a double. -/

namespace QuantileMonitor.Decimal

inductive Double
  | nan
  | infinite (negative : Bool)
  | finite (negative : Bool) (mantissa : Nat) (exponent : Int)
deriving DecidableEq

namespace Double

def hidden : Nat := 4503599627370496

def ofBits (bits : Nat) : Double :=
  let negative : Bool := bits / 9223372036854775808 = 1
  let exponent : Nat := bits / hidden % 2048
  let fraction := bits % hidden
  if exponent = 2047 then (if fraction = 0 then infinite negative else nan)
  else if exponent = 0 then finite negative fraction (-1074)
  else finite negative (hidden + fraction) ((exponent : Int) - 1075)

def ofFloat (x : Float) : Double := ofBits x.toBits.toNat

end Double

def quotient (mantissa : Nat) (exponent : Int) : Nat × Nat :=
  (mantissa * Nat.pow 2 exponent.toNat, Nat.pow 2 (-exponent).toNat)

def scale (q : Nat × Nat) (power : Int) : Nat × Nat :=
  (q.1 * Nat.pow 10 power.toNat, q.2 * Nat.pow 10 (-power).toNat)

def digitCount (n : Nat) : Nat := (Nat.toDigits 10 n).length

def leadingPower (q : Nat × Nat) : Int :=
  if q.2 ≤ q.1 then (digitCount (q.1 / q.2) : Int) - 1
  else -(digitCount ((q.2 + q.1 - 1) / q.1 - 1) : Int)

/-- The whole number nearest to a quotient, a half to the even one. -/
def roundQuotient (q : Nat × Nat) : Nat :=
  let whole := q.1 / q.2
  let twice := 2 * (q.1 % q.2)
  if twice < q.2 then whole
  else if q.2 < twice then whole + 1
  else whole + whole % 2

end QuantileMonitor.Decimal
