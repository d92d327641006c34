import QuantileMonitor.Pattern.Fault
import QuantileMonitor.Pattern.Tree
import QuantileMonitor.Text.Numeral

/-! Escapes: what a backslash and the characters after it stand for. A pattern holds no closing brace,
so what opens one inside an escape never ends well. -/

namespace QuantileMonitor.Pattern

namespace Escape

def hexDigits (n : Nat) : Nat → Reading Nat
  | 0 => return n
  | count + 1 => do
    let char ← nextOr .unfinishedEscape (← get).place
    match Text.hexValue? char with
    | none => fail .badHexDigit (← get).nextExtent
    | some v =>
      modify Cursor.pass
      hexDigits (16 * n + v) count

def hexBrace {α : Type} (start : Place) : Reading α := do
  modify fun c => (c.pass.takeWhile fun char => (Text.hexValue? char).isSome).2
  let _ ← nextOr .unfinishedEscape start
  fail .badHexDigit (← get).nextExtent

def hex (start : Place) (letter : Char) : Reading Tree := do
  modify Cursor.pass
  let digitsStart := (← get).place
  let char ← nextOr .unfinishedEscape digitsStart
  if char = '\x7b' then hexBrace digitsStart
  else
    let n ← hexDigits 0 (if letter = 'x' then 2 else if letter = 'u' then 4 else 8)
    let c ← get
    if n.isValidChar then return .literal ⟨c.since start, Char.ofNat n, letter = 'x'⟩
    else fail .noCharacter (c.since digitsStart)

def property (start : Place) : Reading Tree := do
  modify Cursor.pass
  let char ← nextOr .unfinishedEscape (← get).place
  if char = '\x7b' then
    let c ← get
    fail .unfinishedEscape (c.drop c.rest.length).here
  if char = '\x5c' then fail .badProperty (← get).nextExtent
  modify Cursor.pass
  return .property ((← get).since start)

def edgeName (start : Place) : Reading Unit := do
  let c ← get
  let isNameChar (char : Char) : Bool := char.isAlpha || char = '-'
  if c.rest.head? = some '\x7b' then
    modify Cursor.pass
    let char ← nextOr .boundaryOrCount start
    if isNameChar char then
      modify fun c => (c.takeWhile isNameChar).2
      fail .unclosedBoundary ((← get).since c.place)
    else set c

def isReserved (c : Char) : Bool := c.isAlphanum || c = '<' || c = '>'

def controls : List (Char × Char) :=
  [('a', '\x07'), ('f', '\x0c'), ('t', '\t'), ('n', '\n'), ('r', '\r'), ('v', '\x0b')]

def single (start : Place) (char : Char) : Reading Tree := do
  let extent := (← get).since start
  if char.toNat < 128 && !isReserved char then return .literal ⟨extent, char, false⟩
  match controls.lookup char with
  | some control => return .literal ⟨extent, control, false⟩
  | none =>
    match char with
    | 'd' | 's' | 'w' => return .shorthand extent false
    | 'D' | 'S' | 'W' => return .shorthand extent true
    | 'A' | 'z' => return .assertion extent false
    | 'b' =>
      edgeName start
      return .assertion extent true
    | 'B' | '<' | '>' => return .assertion extent true
    | _ => fail .unknownEscape extent

end Escape

def escape : Reading Tree := do
  let start := (← get).place
  modify Cursor.next
  let char ← nextOr .unfinishedEscape start
  if char.isDigit then fail .backreference ((← get).next.since start)
  else if char = 'x' || char = 'u' || char = 'U' then Escape.hex start char
  else if char = 'p' || char = 'P' then Escape.property start
  else
    modify Cursor.next
    Escape.single start char

end QuantileMonitor.Pattern
