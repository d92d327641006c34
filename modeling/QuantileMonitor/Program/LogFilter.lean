import QuantileMonitor.Decimal.Read
import QuantileMonitor.Pattern.Check
import QuantileMonitor.Text.Blank
import QuantileMonitor.Text.Numeral
import QuantileMonitor.Text.Numeric

/-! Which log lines are wanted, as text: directives with commas between them, each a level, a target, or
a target with a span and a field in brackets and a level after an equals sign. The value of a field is
a boolean, a number or a pattern. -/

namespace QuantileMonitor.Program

open Text

inductive DirectiveError
  | malformed
  | unknownLevel
  | badPattern (pattern : List Char) (cause : Pattern.Refusal)

namespace DirectiveError

def levelMessage : String :=
  "error parsing level filter: expected one of \"off\", \"error\", \"warn\", " ++
    "\"info\", \"debug\", \"trace\", or a number 0-5"

def chain : DirectiveError → List String
  | malformed => ["invalid filter directive"]
  | unknownLevel => [levelMessage, levelMessage]
  | badPattern pattern cause =>
    let chain := cause.chain pattern
    ("invalid field filter: " ++ chain.headD "") :: chain

end DirectiveError

def dropBytes : Nat → List Char → List Char
  | 0, s => s
  | _, [] => []
  | n, c :: rest => dropBytes (n - c.utf8Size) rest

def takeBytes : Nat → List Char → List Char
  | 0, _ => []
  | _, [] => []
  | n, c :: rest => c :: takeBytes (n - c.utf8Size) rest

def isPlainValue (s : List Char) : Bool :=
  s = "true".toList || s = "false".toList || (Decimal.read? s).isSome

def checkField (field : List Char) : Except DirectiveError Unit :=
  if field.isEmpty then .error .malformed
  else
    match splitOn '=' field with
    | _ :: value :: _ =>
      if isPlainValue value then .ok () else (Pattern.check value).mapError (.badPattern value)
    | _ => .ok ()

inductive Position
  | start
  | target
  | span
  | field (first : Nat)
  | afterFields
  | afterSpan
  | level (first : Nat)
deriving DecidableEq

namespace Position

def beginsName (c : Char) : Bool := ['-', ':', '_'].contains c || isAlphanumeric c

/-- Bytes are counted in the directive without the blanks around it and taken from the directive with
them. -/
def next (directive : List Char) (i : Nat) (p : Position) (c : Char) : Except DirectiveError Position :=
  match p, c with
  | start, '[' => .ok span
  | start, c => if beginsName c then .ok target else .error .malformed
  | target, '=' => .ok (level (i + 1))
  | target, '[' => .ok span
  | target, _ => .ok target
  | span, ']' => .ok afterSpan
  | span, '\x7b' => .ok (field (i + 1))
  | span, _ => .ok span
  | field first, '\x7d' => do
    checkField (takeBytes (i - first) (dropBytes first directive))
    return afterFields
  | field first, _ => .ok (field first)
  | afterFields, ']' => .ok afterSpan
  | afterFields, _ => .error .malformed
  | afterSpan, '=' => .ok (level (i + 1))
  | afterSpan, _ => .error .malformed
  | level first, _ => .ok (level first)

def run (directive : List Char) (i : Nat) (p : Position) : List Char → Except DirectiveError Position
  | [] => .ok p
  | c :: rest => do run directive (i + c.utf8Size) (← p.next directive i c) rest

end Position

def levelNames : List String := ["off", "error", "warn", "info", "debug", "trace"]

def isLevel (s : List Char) : Bool :=
  s.isEmpty || (unsigned? 6 s).isSome || levelNames.contains (String.ofList (s.map Char.toLower))

def checkDirective (directive : List Char) : Except DirectiveError Unit := do
  match ← Position.start.run directive 0 (trim directive) with
  | .target | .afterSpan => return ()
  | .level first => if isLevel (dropBytes first directive) then return () else throw .unknownLevel
  | _ => throw .malformed

def checkLogFilter (text : String) : Except DirectiveError Unit :=
  ((splitOn ',' text.toList).filter (!·.isEmpty)).forM checkDirective

end QuantileMonitor.Program
