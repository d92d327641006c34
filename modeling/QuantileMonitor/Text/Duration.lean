import QuantileMonitor.Span
import QuantileMonitor.Text.Blank
import QuantileMonitor.Text.Numeral
import QuantileMonitor.Word

/-! Lengths of time as text: numbers with units, added up, as in `1h 30min` or `2.5s`. Blanks do not
matter around numbers and units and within numbers. Zero alone needs no unit. -/

namespace QuantileMonitor.Text

def bounded? (n : Nat) : Option Nat := if n < Word.bound then some n else none

inductive TimeUnit
  | fine (nanoseconds : Nat)
  | medium (seconds : Nat)
  | coarse (seconds : Nat)

namespace TimeUnit

def table : List (List String × TimeUnit) :=
  [(["ns", "nsec", "nanos"], fine 1),
    (["us", "usec", "µs"], fine 1000),
    (["ms", "msec", "millis"], fine 1000000),
    (["s", "sec", "secs", "second", "seconds"], medium 1),
    (["m", "min", "mins", "minute", "minutes"], medium 60),
    (["h", "hr", "hrs", "hour", "hours"], coarse 3600),
    (["d", "day", "days"], coarse 86400),
    (["w", "wk", "wks", "week", "weeks"], coarse 604800),
    (["M", "month", "months"], coarse 2630016),
    (["y", "yr", "yrs", "year", "years"], coarse 31557600)]

def ofName? (name : String) : Option TimeUnit :=
  (table.find? fun (names, _) => names.contains name).map (·.2)

def whole? (n : Nat) : TimeUnit → Option (Nat × Nat)
  | fine k => (bounded? (n * k)).map fun ns => (0, ns)
  | medium k | coarse k => (bounded? (n * k)).map fun s => (s, 0)

def exactly? (numerator denominator : Nat) : Option Nat :=
  if numerator % denominator = 0 then some (numerator / denominator) else none

def part? (numerator denominator : Nat) : TimeUnit → Option (Nat × Nat)
  | fine k => do
    if k = 1 then none
    return (0, ← exactly? (← bounded? (numerator * k)) denominator)
  | medium k => do return (0, ← exactly? (← bounded? (numerator * (k * Span.perSecond))) denominator)
  | coarse k => do return (← exactly? (← bounded? (numerator * k)) denominator, 0)

end TimeUnit

def Span.add? (s : Span) (time : Nat × Nat) : Option Span := do
  let ns ← bounded? (s.subsecond + time.2)
  let seconds ← bounded? (s.seconds + time.1 + ns / Span.perSecond)
  return ⟨seconds * Span.perSecond + ns % Span.perSecond⟩

def isUnitLetter (c : Char) : Bool := c.isAlpha || c = 'µ'

def takeDigits (s : List Char) : List Char × List Char :=
  let (digits, rest) := s.span fun c => c.isDigit || isBlank c
  (digits.filter Char.isDigit, rest)

def fraction? (digits : List Char) : Option (Nat × Nat) := do
  if digits.isEmpty then none
  let denominator ← bounded? (Nat.pow 10 digits.length)
  return (← bounded? (digitsValue digits), denominator)

def addTerm? (total : Span) (s : List Char) : Option (Span × List Char) := do
  let (digits, rest) := takeDigits s
  if digits.isEmpty then none
  let n ← bounded? (digitsValue digits)
  let (fraction, rest) ←
    match rest with
    | '.' :: rest =>
      let (digits, rest) := takeDigits rest
      (fraction? digits).map fun f => (some f, rest)
    | rest => some (none, rest)
  let (name, rest) := rest.span isUnitLetter
  let unit ← TimeUnit.ofName? (String.ofList name)
  let total ← Span.add? total (← unit.whole? n)
  match fraction with
  | none => return (total, rest)
  | some (numerator, denominator) =>
    return (← Span.add? total (← unit.part? numerator denominator), rest)

def addTerms? : Nat → Span → List Char → Option Span
  | 0, _, _ => none
  | fuel + 1, total, s => do
    let (total, rest) ← addTerm? total s
    match trimLeft rest with
    | [] => return total
    | rest => addTerms? fuel total rest

def duration? (s : List Char) : Option Span :=
  if s = ['0'] then some .zero else addTerms? (s.length + 1) .zero s

end QuantileMonitor.Text
