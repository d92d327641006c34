import QuantileMonitor.Decimal.Read
import QuantileMonitor.Text.Duration
import QuantileMonitor.Yaml.Node

/-! What nodes say as values. Numbers, booleans and nothing are plain scalars; a text is any scalar. An
alias says what the node says that it stands for, but there is a limit to how many are followed. -/

namespace QuantileMonitor.Yaml

abbrev Reading (α : Type) := StateT Nat Option α

/-- So many aliases are followed for each start or end in a document. -/
def aliasLimit : Nat := 100

namespace Document

open Text

def follow (d : Document) (n : Node) : Reading Node := do
  match n with
  | .aliasOf number =>
    let followed := (← get) + 1
    if d.size * aliasLimit < followed then failure
    set followed
    match d.target? number with
    | none => failure
    | some target => return target
  | n => return n

def text (d : Document) (n : Node) : Reading String := do
  match ← d.follow n with
  | .scalar _ _ _ text => return text
  | _ => failure

def isNull (text : String) : Bool := ["~", "null", "Null", "NULL"].contains text

def isNothing : Node → Reading Bool
  | .scalar _ tag .plain text =>
    match tag with
    | none => return text.isEmpty || isNull text
    | some t => if t ≠ .null then return false else if isNull text then return true else failure
  | _ => return false

def optional {α : Type} (read : Node → Reading α) (d : Document) (n : Node) : Reading (Option α) := do
  let n ← d.follow n
  if ← isNothing n then return none else return some (← read n)

def untold (tag : Tag) (d : Document) (n : Node) : Reading String := do
  match ← d.follow n with
  | .scalar _ _ .plain text => return text
  | .scalar _ t .literal text => if t = some tag then return text else failure
  | _ => failure

def boolOf? (text : String) : Option Bool :=
  if ["true", "True", "TRUE"].contains text then some true
  else if ["false", "False", "FALSE"].contains text then some false
  else none

def bool (d : Document) (n : Node) : Reading Bool := do boolOf? (← d.untold .bool n)

def digitOf? (radix : Nat) (c : Char) : Option Nat :=
  (hexValue? c).bind fun v => if v < radix then some v else none

def digits? (radix : Nat) (s : List Char) : Option Nat := do
  let s := dropPlus s
  if s.isEmpty then none
  let values ← s.mapM (digitOf? radix)
  return values.foldl (fun n v => radix * n + v) 0

/-- The number below a bound that a text denotes, in one of four radices. Decimal numbers do not begin
with a zero. -/
def natOf? (bound : Nat) (s : List Char) : Option Nat := do
  let unsigned := dropPlus s
  if unsigned.head? = some '+' then none
  let n ←
    match unsigned with
    | '0' :: 'x' :: rest => if rest.head? = some '+' then none else digits? 16 rest
    | '0' :: 'o' :: rest => if rest.head? = some '+' then none else digits? 8 rest
    | '0' :: 'b' :: rest => if rest.head? = some '+' then none else digits? 2 rest
    | '0' :: _ :: _ => none
    | digits => digits? 10 digits
  if n < bound then some n else none

def nat (bound : Nat) (d : Document) (n : Node) : Reading Nat := do
  natOf? bound (← d.untold .int n).toList

def floatOf? (s : String) : Option Float :=
  let isInfinity (s : String) : Bool := [".inf", ".Inf", ".INF"].contains s
  if isInfinity s || isInfinity (String.ofList (dropPlus s.toList)) then some (1 / 0)
  else if ["-.inf", "-.Inf", "-.INF"].contains s then some (-1 / 0)
  else if [".nan", ".NaN", ".NAN"].contains s then some (0 / 0)
  else (Decimal.read? s.toList).filter (·.isFinite)

def float (d : Document) (n : Node) : Reading Float := do floatOf? (← d.untold .float n)

def duration (d : Document) (n : Node) : Reading Span := do Text.duration? (← d.text n).toList

def choice {α : Type} (ofName? : String → Option α) (d : Document) (n : Node) : Reading α := do
  match ← d.follow n with
  | .scalar _ tag style text =>
    match tag.bind Tag.own? with
    | none => ofName? text
    | some name =>
      if style = .plain && (text.isEmpty || isNull text) then ofName? name else failure
  | _ => failure

def list {α : Type} (read : Node → Reading α) (d : Document) (n : Node) : Reading (List α) := do
  match ← d.follow n with
  | .sequence _ items => items.mapM read
  | .scalar _ _ .plain "" => return []
  | _ => failure

def entries (d : Document) (n : Node) : Reading (List (Node × Node)) := do
  match ← d.follow n with
  | .mapping _ entries => return entries
  | .scalar _ _ .plain "" => return []
  | _ => failure

end Document

end QuantileMonitor.Yaml
