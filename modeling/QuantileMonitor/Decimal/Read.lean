import QuantileMonitor.Text.Numeral

/-! Reading a decimal number as the nearest double. -/

namespace QuantileMonitor.Decimal

open Text

def powerLimit : Int := 400

def nearest (n : Nat) (power : Int) : Float :=
  let leading := ((Nat.toDigits 10 n).length : Int) + power
  if n = 0 ∨ leading < -powerLimit then 0
  else if powerLimit < leading then 1 / 0
  else Float.ofScientific n (decide (power < 0)) power.natAbs

def splitSign : List Char → Bool × List Char
  | '-' :: rest => (true, rest)
  | '+' :: rest => (false, rest)
  | s => (false, s)

def readPower? : List Char → Option Int
  | [] => some 0
  | c :: rest =>
    if c = 'e' ∨ c = 'E' then
      let (negative, digits) := splitSign rest
      if digits.isEmpty || !digits.all Char.isDigit then none
      else some (if negative then -(digitsValue digits : Int) else digitsValue digits)
    else none

def readDigits? (s : List Char) : Option Float :=
  let whole := s.takeWhile Char.isDigit
  let rest := s.dropWhile Char.isDigit
  let (places, rest) :=
    match rest with
    | '.' :: rest => (rest.takeWhile Char.isDigit, rest.dropWhile Char.isDigit)
    | rest => ([], rest)
  if whole.isEmpty && places.isEmpty then none
  else (readPower? rest).map fun power => nearest (digitsValue (whole ++ places)) (power - places.length)

/-- A number with an optional sign; infinity and what is no number go by name, in any case. -/
def read? (s : List Char) : Option Float :=
  let (negative, body) := splitSign s
  let magnitude :=
    match String.ofList (body.map Char.toLower) with
    | "inf" | "infinity" => some (1 / 0)
    | "nan" => some (0 / 0)
    | _ => readDigits? body
  magnitude.map fun x => if negative then -x else x

end QuantileMonitor.Decimal
