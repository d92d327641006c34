/-! Digits and unsigned decimal numerals. -/

namespace QuantileMonitor.Text

def digitValue (c : Char) : Nat := c.toNat - '0'.toNat

def hexValue? (c : Char) : Option Nat :=
  if c.isDigit then some (c.toNat - '0'.toNat)
  else if 'a' ≤ c && c ≤ 'f' then some (c.toNat - 'a'.toNat + 10)
  else if 'A' ≤ c && c ≤ 'F' then some (c.toNat - 'A'.toNat + 10)
  else none

def digitsValue (s : List Char) : Nat := s.foldl (fun n c => 10 * n + digitValue c) 0

def dropPlus : List Char → List Char
  | '+' :: rest => rest
  | s => s

/-- One or more digits after an optional plus, for a number below a bound. -/
def unsigned? (bound : Nat) (s : List Char) : Option Nat :=
  let digits := dropPlus s
  if digits.isEmpty || !digits.all Char.isDigit then none
  else
    let n := digitsValue digits
    if n < bound then some n else none

end QuantileMonitor.Text
