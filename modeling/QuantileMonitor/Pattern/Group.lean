import QuantileMonitor.Pattern.Fault
import QuantileMonitor.Pattern.Tree
import QuantileMonitor.Text.Numeric

/-! How groups begin: with flags, with a name, or with nothing. -/

namespace QuantileMonitor.Pattern

inductive Opening
  | group (marks : List FlagMark)
  | flags (extent : Extent) (marks : List FlagMark)

namespace Opening

def flagNames : List Char := ['i', 'm', 's', 'U', 'u', 'R', 'x']

def flagsFrom (seen : List (FlagMark × Extent)) (p : Place) :
    List Char → Except Fault (List FlagMark × Place × List Char)
  | [] => .error ⟨.flagWanted, p, p⟩
  | c :: rest =>
    if c = ':' || c = ')' then
      match seen with
      | (.negation, e) :: _ => .error ⟨.danglingNegation, e⟩
      | _ => .ok ((seen.map (·.1)).reverse, p, c :: rest)
    else
      let extent : Extent := ⟨p, p.after c⟩
      let mark : FlagMark := if c = '-' then .negation else .flag c
      if c ≠ '-' && !flagNames.contains c then .error ⟨.unknownFlag, extent⟩
      else
        match seen.lookup mark with
        | some first => .error ⟨if c = '-' then .repeatedNegation first else .duplicateFlag first, extent⟩
        | none => flagsFrom ((mark, extent) :: seen) (p.after c) rest

def isNameChar (first : Bool) (c : Char) : Bool :=
  if first then c = '_' || Text.isAlphabetic c
  else ['_', '.', '[', ']'].contains c || Text.isAlphanumeric c

def nameFrom (name : List Char) (p : Place) : List Char → Except Fault (List Char × Place × List Char)
  | [] => .error ⟨.unclosedName, p, p⟩
  | c :: rest =>
    if c = '>' then
      if name.isEmpty then .error ⟨.emptyName, p, p⟩ else .ok (name.reverse, p, c :: rest)
    else if isNameChar name.isEmpty c then nameFrom (c :: name) (p.after c) rest
    else .error ⟨.badName, p, p.after c⟩

def lookMarks : List (List Char) := [['?', '='], ['?', '!'], ['?', '<', '='], ['?', '<', '!']]

def nameMarks : List (List Char) := [['?', 'P', '<'], ['?', '<']]

def startLength? (starts : List (List Char)) (s : List Char) : Option Nat :=
  (starts.find? fun start => (Text.dropStart? start s).isSome).map (·.length)

def newName (names : List (List Char × Extent)) : Reading (List Char × Extent) := do
  let c ← get
  let (name, place, rest) ← nameFrom [] c.place c.rest
  let extent : Extent := ⟨c.place, place⟩
  set ({ c with rest, place }.next)
  match names.lookup name with
  | some first => fail (.duplicateName first) extent
  | none => return (name, extent)

/-- Flags, and whether they are for a group that begins here. No flags at all leave the question mark
before them as an operator. -/
def ofFlags (parenthesis : Extent) (inside : Place) : Reading Opening := do
  let c ← get
  if c.rest.isEmpty then fail .unclosedGroup parenthesis
  let (marks, place, rest) ← flagsFrom [] c.place c.rest
  set ({ c with rest, place }.next)
  if rest.head? = some ':' then return .group marks
  else if marks.isEmpty then fail .nothingToRepeat ⟨inside, inside⟩
  else return .flags ((← get).since parenthesis.start) marks

def read (names : List (List Char × Extent)) : Reading (Opening × List (List Char × Extent)) := do
  let parenthesis := (← get).nextExtent
  modify Cursor.pass
  let c ← get
  match startLength? lookMarks c.rest with
  | some length => fail .lookAround ((c.drop length).since parenthesis.start)
  | none =>
    match startLength? nameMarks c.rest with
    | some length =>
      set (c.drop length)
      return (.group [], (← newName names) :: names)
    | none =>
      if c.rest.head? = some '?' then
        set c.next
        return (← ofFlags parenthesis c.place, names)
      else return (.group [], names)

end Opening

end QuantileMonitor.Pattern
