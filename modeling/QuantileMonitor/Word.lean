/-! Counters and values are words of 64 bits: whole numbers below `2 ^ 64`. -/

namespace QuantileMonitor.Word

def bound : Nat := 18446744073709551616

def halfBound : Nat := 4294967296

def top : Nat := bound - 1

def addSat (a b : Nat) : Nat := min (a + b) top

def add? (a b : Nat) : Option Nat := if a + b < bound then some (a + b) else none

/-- The sum of words one after another, each sum on the way a word too. -/
def sum? (values : List Nat) : Option Nat := values.foldlM add? 0

end QuantileMonitor.Word
