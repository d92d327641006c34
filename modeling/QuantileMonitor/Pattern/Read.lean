import QuantileMonitor.Pattern.Bracket
import QuantileMonitor.Pattern.Group

/-! Reading patterns. The groups begun are kept on a stack; inside each there are branches, and in the
last of them items. A number of repetitions stands in braces, and as a pattern holds no closing brace,
there is none that ends well. -/

namespace QuantileMonitor.Pattern

structure Branches where
  start : Place
  before : List Tree
  lastStart : Place
  items : List Tree

namespace Branches

def begin (start : Place) : Branches := ⟨start, [], start, []⟩

def push (b : Branches) (t : Tree) : Branches := { b with items := t :: b.items }

def branch (b : Branches) (stop next : Place) : Branches :=
  ⟨b.start, .ofItems ⟨b.lastStart, stop⟩ b.items.reverse :: b.before, next, []⟩

def tree (b : Branches) (stop : Place) : Tree :=
  let last := Tree.ofItems ⟨b.lastStart, stop⟩ b.items.reverse
  if b.before.isEmpty then last else .alternation ⟨b.start, stop⟩ (last :: b.before).reverse

end Branches

structure OpenGroup where
  parenthesis : Extent
  marks : List FlagMark
  spaced : Bool
  outer : Branches

structure Groups where
  branches : Branches
  begun : List OpenGroup
  names : List (List Char × Extent)

namespace Groups

def start : Groups := ⟨.begin .start, [], []⟩

def push (s : Groups) (t : Tree) : Groups := { s with branches := s.branches.push t }

def openGroup (s : Groups) : Reading Groups := do
  let before ← get
  let (opening, names) ← Opening.read s.names
  let c ← get
  match opening with
  | .flags extent marks =>
    set { c with spaced := (flagState? 'x' marks).getD c.spaced }
    return { s.push (.flags extent marks) with names }
  | .group marks =>
    set { c with spaced := (flagState? 'x' marks).getD c.spaced }
    let begun := ⟨before.nextExtent, marks, c.spaced, s.branches⟩ :: s.begun
    return ⟨.begin c.place, begun, names⟩

def closeGroup (s : Groups) : Reading Groups := do
  let c ← get
  match s.begun with
  | [] => fail .unopenedGroup c.nextExtent
  | g :: begun =>
    set { c.next with spaced := g.spaced }
    let tree := Tree.group (c.next.since g.parenthesis.start) g.marks (s.branches.tree c.place)
    return { s with branches := g.outer.push tree, begun }

def branch (s : Groups) : Reading Groups := do
  let c ← get
  set c.next
  return { s with branches := s.branches.branch c.place c.next.place }

def repeated (s : Groups) : Reading (Tree × Groups) := do
  match s.branches.items with
  | [] => fail .nothingToRepeat (← get).here
  | t :: items =>
    if t.isRepeatable then return (t, { s with branches := { s.branches with items } })
    else fail .nothingToRepeat (← get).here

def repetition (s : Groups) : Reading Groups := do
  let (t, s) ← s.repeated
  modify Cursor.next
  if (← get).rest.head? = some '?' then modify Cursor.next
  return s.push (.repetition ((← get).since t.extent.start) t)

def countBound : Nat := 4294967296

def count (s : Groups) : Reading Groups := do
  let _ ← s.repeated
  let start := (← get).place
  modify Cursor.pass
  modify fun c => (c.takeWhile Text.isBlank).2
  let before ← get
  let (digits, after) := before.takeWhile Char.isDigit
  let c := (after.takeWhile Text.isBlank).2
  let unclosed : Fault := ⟨.unclosedCount, c.since start⟩
  if c.rest.isEmpty then throw unclosed
  else if digits.isEmpty then fail .emptyCount (after.since before.place)
  else if countBound ≤ Text.digitsValue digits then fail .badCount (after.since before.place)
  else throw unclosed

def step (s : Groups) (char : Char) : Reading Groups := do
  match char with
  | '(' => s.openGroup
  | ')' => s.closeGroup
  | '|' => s.branch
  | '[' => return s.push (← bracketed)
  | '?' | '*' | '+' => s.repetition
  | '\x7b' => s.count
  | '\x5c' => return s.push (← escape)
  | char =>
    let extent := (← get).nextExtent
    modify Cursor.next
    match char with
    | '.' => return s.push (.dot extent)
    | '^' | '$' => return s.push (.assertion extent false)
    | char => return s.push (.literal ⟨extent, char, false⟩)

def finish (s : Groups) : Reading Tree := do
  match s.begun with
  | [] => return s.branches.tree (← get).place
  | g :: _ => fail .unclosedGroup g.parenthesis

def run : Nat → Groups → Reading Tree
  | 0, s => s.finish
  | n + 1, s => do
    modify Cursor.skip
    match (← get).rest.head? with
    | none => s.finish
    | some char => run n (← s.step char)

end Groups

def Tree.ofText (pattern : List Char) : Except Fault Tree :=
  (Groups.start.run (pattern.length + 1)).run' (.start pattern)

end QuantileMonitor.Pattern
