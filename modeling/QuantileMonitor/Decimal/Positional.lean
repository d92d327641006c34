import QuantileMonitor.Decimal.Double

/-! Decimal text without an exponent: all digits, or a fixed number of places. -/

namespace QuantileMonitor.Decimal

def paddedDigits (least n : Nat) : List Char :=
  let digits := Nat.toDigits 10 n
  List.replicate (least - digits.length) '0' ++ digits

def pointed (n places : Nat) : List Char :=
  if places = 0 then Nat.toDigits 10 n
  else
    let digits := paddedDigits (places + 1) n
    let cut := digits.length - places
    digits.take cut ++ '.' :: digits.drop cut

def positional (n : Nat) (power : Int) : List Char :=
  if 0 ≤ power then Nat.toDigits 10 (n * Nat.pow 10 power.toNat) else pointed n (-power).toNat

def signed (negative : Bool) (text : List Char) : String :=
  String.ofList (if negative then '-' :: text else text)

/-- A double with a fixed number of places, its exact value rounded, a half to the even digit. -/
def fixed (places : Nat) (x : Float) : String :=
  match Double.ofFloat x with
  | .nan => "NaN"
  | .infinite negative => signed negative "inf".toList
  | .finite negative m e => signed negative (pointed (roundQuotient (scale (quotient m e) places)) places)

end QuantileMonitor.Decimal
