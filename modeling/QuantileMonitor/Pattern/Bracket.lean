import QuantileMonitor.Pattern.Escape

/-! Classes in brackets: characters, ranges and other classes, with set operations between runs of them. -/

namespace QuantileMonitor.Pattern

structure Items where
  extent : Extent
  items : List ClassSet

namespace Items

def push (u : Items) (s : ClassSet) : Items :=
  ⟨⟨if u.items.isEmpty then s.extent.start else u.extent.start, s.extent.stop⟩, s :: u.items⟩

def set (u : Items) : ClassSet :=
  match u.items with
  | [] => .empty u.extent
  | [s] => s
  | items => .union u.extent items.reverse

end Items

structure OpenClass where
  extent : Extent
  negated : Bool
  left : Option (SetOperation × ClassSet)
  outer : Items

namespace OpenClass

def set (c : OpenClass) (last : Items) : ClassSet :=
  match c.left with
  | none => last.set
  | some (op, left) => .operation ⟨left.extent.start, last.set.extent.stop⟩ op left last.set

def dashes (start : Place) : Nat → Items → Reading Items
  | 0, u => return u
  | n + 1, u => do
    if (← get).rest.head? = some '-' then
      let u := u.push (.literal ⟨(← get).nextExtent, '-', false⟩)
      modify Cursor.pass
      if (← get).rest.isEmpty then fail .unclosedClass ⟨start, start⟩
      dashes start n u
    else return u

def begin (outer : Items) : Reading (OpenClass × Items) := do
  let start := (← get).place
  modify Cursor.pass
  let negated := (← nextOr .unclosedClass start) = '^'
  if negated then
    modify Cursor.pass
    let _ ← nextOr .unclosedClass start
  let c ← get
  let u ← dashes start c.rest.length ⟨c.here, []⟩
  let c ← get
  if u.items.isEmpty && c.rest.head? = some ']' then
    modify Cursor.pass
    let _ ← nextOr .unclosedClass start
    return (⟨(← get).since start, negated, none, outer⟩, u.push (.literal ⟨c.nextExtent, ']', false⟩))
  else return (⟨c.since start, negated, none, outer⟩, u)

end OpenClass

namespace ClassSet

def classNames : List String :=
  ["alnum", "alpha", "ascii", "blank", "cntrl", "digit", "graph", "lower", "print", "punct", "space", "upper",
    "word", "xdigit"]

def named? (s : List Char) : Option (Nat × Bool) := do
  let inside ← Text.dropStart? ['[', ':'] s
  let negated := inside.head? = some '^'
  let inside := if negated then inside.drop 1 else inside
  let name := inside.takeWhile (· ≠ ':')
  let rest ← Text.dropStart? [':', ']'] (inside.dropWhile (· ≠ ':'))
  if classNames.contains (String.ofList name) then some (s.length - rest.length, negated) else none

def item : Reading Tree := do
  let c ← get
  match c.rest.head? with
  | some '\x5c' => escape
  | char =>
    modify Cursor.next
    return .literal ⟨c.nextExtent, char.getD ' ', false⟩

def ofTree : Tree → Reading ClassSet
  | .literal l => return .literal l
  | .shorthand e negated => return .shorthand e negated
  | .property e => return .property e
  | t => fail .badClassEscape t.extent

def endOfTree : Tree → Reading Literal
  | .literal l => return l
  | t => fail .badRangeEnd t.extent

def itemOrRange (unclosed : Extent) : Reading ClassSet := do
  let first ← item
  modify Cursor.skip
  let c ← get
  if c.rest.isEmpty then fail .unclosedClass unclosed
  if c.rest.head? ≠ some '-' || c.second? = some ']' || c.second? = some '-' then ofTree first
  else
    modify Cursor.pass
    if (← get).rest.isEmpty then fail .unclosedClass unclosed
    let last ← item
    let extent : Extent := ⟨first.extent.start, last.extent.stop⟩
    let first ← endOfTree first
    let last ← endOfTree last
    if last.char < first.char then fail .badRange extent
    return .range extent first last

def operation? : List Char → Option SetOperation
  | '&' :: '&' :: _ => some .intersection
  | '-' :: '-' :: _ => some .difference
  | '~' :: '~' :: _ => some .symmetricDifference
  | _ => none

end ClassSet

structure Classes where
  inner : OpenClass
  outer : List OpenClass
  items : Items

namespace Classes

def close (s : Classes) : Reading (Classes ⊕ Tree) := do
  modify Cursor.next
  let extent := (← get).since s.inner.extent.start
  let inside := s.inner.set s.items
  match s.outer with
  | [] => return .inr (.bracketed extent s.inner.negated inside)
  | inner :: outer =>
    return .inl ⟨inner, outer, s.inner.outer.push (.bracketed extent s.inner.negated inside)⟩

def nested (s : Classes) : Reading Classes := do
  let c ← get
  match ClassSet.named? c.rest with
  | some (length, negated) =>
    set (c.drop length)
    return { s with items := s.items.push (.named ((c.drop length).since c.place) negated) }
  | none =>
    let (inner, items) ← OpenClass.begin s.items
    return ⟨inner, s.inner :: s.outer, items⟩

def step (s : Classes) : Reading (Classes ⊕ Tree) := do
  modify Cursor.skip
  let c ← get
  match c.rest with
  | [] => fail .unclosedClass s.inner.extent
  | '[' :: _ => return .inl (← s.nested)
  | ']' :: _ => s.close
  | rest =>
    match ClassSet.operation? rest with
    | some op =>
      let c := c.drop 2
      set c
      return .inl { s with inner := { s.inner with left := some (op, s.inner.set s.items) }, items := ⟨c.here, []⟩ }
    | none =>
      let item ← ClassSet.itemOrRange s.inner.extent
      return .inl { s with items := s.items.push item }

def run : Nat → Classes → Reading Tree
  | 0, s => fail .unclosedClass s.inner.extent
  | n + 1, s => do
    match ← s.step with
    | .inl s => run n s
    | .inr t => return t

end Classes

def bracketed : Reading Tree := do
  let c ← get
  let (inner, items) ← OpenClass.begin ⟨c.here, []⟩
  Classes.run (c.rest.length + 1) ⟨inner, [], items⟩

end QuantileMonitor.Pattern
