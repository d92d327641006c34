import QuantileMonitor.Decimal.Positional

/-! Decimal text with one digit before the point and a power of ten after it. -/

namespace QuantileMonitor.Decimal

def scientificDigits (places : Nat) (q : Nat × Nat) : Nat × Int :=
  let leading := leadingPower q
  let n := roundQuotient (scale q (places - leading))
  if n = Nat.pow 10 (places + 1) then (Nat.pow 10 places, leading + 1) else (n, leading)

def powerText (power : Int) : List Char :=
  'e' :: (if power < 0 then ['-'] else []) ++ Nat.toDigits 10 power.natAbs

def scientific (places : Nat) (x : Float) : String :=
  match Double.ofFloat x with
  | .nan => "NaN"
  | .infinite negative => signed negative "inf".toList
  | .finite negative 0 _ => signed negative (pointed 0 places ++ powerText 0)
  | .finite negative m e =>
    let (n, power) := scientificDigits places (quotient m e)
    signed negative (pointed n places ++ powerText power)

end QuantileMonitor.Decimal
