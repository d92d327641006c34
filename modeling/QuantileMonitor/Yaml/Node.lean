import QuantileMonitor.Word
import QuantileMonitor.Yaml.Token

/-! A document as a tree. A node that is left out is an empty plain scalar. -/

namespace QuantileMonitor.Yaml

inductive Node
  | scalar (anchor : Option Nat) (tag : Option Tag) (style : Style) (text : String)
  | sequence (anchor : Option Nat) (items : List Node)
  | mapping (anchor : Option Nat) (entries : List (Node × Node))
  | aliasOf (number : Nat)

namespace Node

def empty : Node := scalar none none .plain ""

def anchor? : Node → Option Nat
  | scalar anchor _ _ _ | sequence anchor _ | mapping anchor _ => anchor
  | aliasOf _ => none

structure Properties where
  anchor : Option Nat
  tag : Option Tag

namespace Properties

def take : List Token → Properties × List Token
  | .anchor a :: .tag _ t :: rest | .tag _ t :: .anchor a :: rest => (⟨some a, some t⟩, rest)
  | .anchor a :: rest => (⟨some a, none⟩, rest)
  | .tag _ t :: rest => (⟨none, some t⟩, rest)
  | rest => (⟨none, none⟩, rest)

def scalar (p : Properties) (style : Style) (text : String) : Node :=
  .scalar p.anchor (p.tag.filter (· ≠ .nonSpecific)) style text

def alone? (p : Properties) : Option Node :=
  if p.anchor.isNone && p.tag.isNone then none else some (.scalar p.anchor p.tag .plain "")

end Properties

abbrev Reader (α : Type) := List Token → Except Flaw (α × List Token)

def orEmpty (stops : List Token) (read : Reader Node) : Reader Node
  | [] => read []
  | t :: rest => if stops.contains t then .ok (empty, t :: rest) else read (t :: rest)

def valueAfter (read : Reader Node) : Reader Node
  | .value :: rest => read rest
  | rest => .ok (empty, rest)

inductive Role
  | item
  /-- Outside of flow collections, entries of a sequence may follow without being indented. -/
  | keyOrValue
  | flow

mutual

def read : Nat → Role → Reader Node
  | 0, _, _ => .error .unexpectedToken
  | _ + 1, _, .aliasOf number :: rest => .ok (aliasOf number, rest)
  | fuel + 1, role, ts =>
    let (p, ts) := Properties.take ts
    match role, ts with
    | _, .scalar style text :: rest => .ok (p.scalar style text, rest)
    | _, .flowSequenceStart :: rest => do
      let (items, rest) ← flowItems fuel true rest
      return (sequence p.anchor items, rest)
    | _, .flowMappingStart :: rest => do
      let (entries, rest) ← flowEntries fuel true rest
      return (mapping p.anchor entries, rest)
    | .keyOrValue, .entry :: _ => do
      let (items, rest) ← looseItems fuel ts
      return (sequence p.anchor items, rest)
    | .item, .sequenceStart :: rest | .keyOrValue, .sequenceStart :: rest => do
      let (items, rest) ← blockItems fuel rest
      return (sequence p.anchor items, rest)
    | .item, .mappingStart :: rest | .keyOrValue, .mappingStart :: rest => do
      let (entries, rest) ← blockEntries fuel rest
      return (mapping p.anchor entries, rest)
    | _, ts =>
      match p.alone? with
      | some node => .ok (node, ts)
      | none => .error .unexpectedToken

def blockItems : Nat → Reader (List Node)
  | fuel + 1, .entry :: rest => do
    let (item, rest) ← orEmpty [.entry, .blockEnd] (read fuel .item) rest
    let (items, rest) ← blockItems fuel rest
    return (item :: items, rest)
  | _, .blockEnd :: rest => .ok ([], rest)
  | _, _ => .error .unexpectedToken

def looseItems : Nat → Reader (List Node)
  | fuel + 1, .entry :: rest => do
    let (item, rest) ← orEmpty [.entry, .key, .value, .blockEnd] (read fuel .item) rest
    let (items, rest) ← looseItems fuel rest
    return (item :: items, rest)
  | _, rest => .ok ([], rest)

def blockEntries : Nat → Reader (List (Node × Node))
  | fuel + 1, .key :: rest => do
    let side := orEmpty [.key, .value, .blockEnd] (read fuel .keyOrValue)
    let (key, rest) ← side rest
    let (value, rest) ← valueAfter side rest
    let (entries, rest) ← blockEntries fuel rest
    return ((key, value) :: entries, rest)
  | _, .blockEnd :: rest => .ok ([], rest)
  | _, _ => .error .unexpectedToken

def flowItems : Nat → Bool → Reader (List Node)
  | _, _, .flowSequenceEnd :: rest => .ok ([], rest)
  | fuel + 1, true, .key :: rest => do
    let (key, rest) ← read fuel .flow rest
    let (value, rest) ← valueAfter (orEmpty [.comma, .flowSequenceEnd] (read fuel .flow)) rest
    let (items, rest) ← flowItems fuel false rest
    return (mapping none [(key, value)] :: items, rest)
  | fuel + 1, true, rest => do
    let (item, rest) ← read fuel .flow rest
    let (items, rest) ← flowItems fuel false rest
    return (item :: items, rest)
  | fuel + 1, false, .comma :: rest => flowItems fuel true rest
  | _, _, _ => .error .unexpectedToken

/-- A node without a key's mark is a key without a value. -/
def flowEntries : Nat → Bool → Reader (List (Node × Node))
  | _, _, .flowMappingEnd :: rest => .ok ([], rest)
  | fuel + 1, true, .key :: rest => do
    let side := orEmpty [.value, .comma, .flowMappingEnd] (read fuel .flow)
    let (key, rest) ← side rest
    let (value, rest) ← valueAfter side rest
    let (entries, rest) ← flowEntries fuel false rest
    return ((key, value) :: entries, rest)
  | fuel + 1, true, rest => do
    let (key, rest) ← read fuel .flow rest
    let (entries, rest) ← flowEntries fuel false rest
    return ((key, empty) :: entries, rest)
  | fuel + 1, false, .comma :: rest => flowEntries fuel true rest
  | _, _, _ => .error .unexpectedToken

end

def atDocumentEnd : List Token → Bool
  | [] | .documentStart :: _ | .documentEnd :: _ | .directive _ :: _ => true
  | _ => false

def takeDirectives : List Token → List Directive × List Token
  | .directive d :: rest =>
    let (ds, rest) := takeDirectives rest
    (d :: ds, rest)
  | rest => ([], rest)

def resolveTags (hs : Handles) (ts : List Token) : Except Flaw (List Token) :=
  ts.mapM fun
    | .tag handle rest => return .tag "" (← hs.resolve handle rest)
    | t => return t

def ofTokens (ts : List Token) : Except Flaw Node := do
  let (ds, ts) := takeDirectives ts
  let ts ← resolveTags (← Handles.ofDirectives ds) ts
  let node := read (2 * ts.length + 2) .item
  let (root, rest) ←
    match ds, ts with
    | [], [] => pure (empty, [])
    | _, .documentStart :: rest => if atDocumentEnd rest then pure (empty, rest) else node rest
    | [], ts => node ts
    | _ :: _, _ => throw .unexpectedToken
  if rest.all (· = .documentEnd) then return root else throw .secondDocument

mutual

def all : Node → List Node
  | sequence anchor items => sequence anchor items :: allOfItems items
  | mapping anchor entries => mapping anchor entries :: allOfEntries entries
  | n => [n]

def allOfItems : List Node → List Node
  | [] => []
  | n :: rest => n.all ++ allOfItems rest

def allOfEntries : List (Node × Node) → List Node
  | [] => []
  | (key, value) :: rest => key.all ++ value.all ++ allOfEntries rest

end

def size : Node → Nat
  | sequence _ _ | mapping _ _ => 2
  | _ => 1

end Node

structure Document where
  root : Node
  anchored : List (Nat × Node)
  size : Nat

namespace Document

def ofNode (root : Node) : Document where
  root := root
  anchored := (root.all.filterMap fun n => n.anchor?.map (·, n)).reverse
  size := root.all.foldl (fun n part => n + part.size) 0

def target? (d : Document) (number : Nat) : Option Node := d.anchored.lookup number

def ofText (text : String) : Except Flaw Document := do
  return ofNode (← Node.ofTokens (← Token.scan (← Source.ofText text.toList)))

end Document

end QuantileMonitor.Yaml
