import QuantileMonitor.Pattern.Depth
import QuantileMonitor.Pattern.Notice
import QuantileMonitor.Pattern.Read

/-! Which patterns may be used. They match text, or bytes where a flag says so, as long as these can
only be text; nothing that needs to know more about characters than their order can be used. -/

namespace QuantileMonitor.Pattern

structure Mode where
  ofText : Bool
  foldsCase : Bool
  asksForWords : Bool

namespace Mode

def start : Mode := ⟨true, false, false⟩

def foldsText (m : Mode) : Bool := m.ofText && m.foldsCase

def apply (m : Mode) (marks : List FlagMark) : Mode :=
  { m with
    ofText := (flagState? 'u' marks).getD m.ofText
    foldsCase := (flagState? 'i' marks).getD m.foldsCase }

def checkByte (m : Mode) (l : Literal) : Except Fault Unit :=
  if !m.ofText && l.isByte && 127 < l.char.toNat then .error ⟨.bytesOutsideText, l.extent⟩ else .ok ()

def checkLiteral (m : Mode) (l : Literal) : Except Fault Unit := do
  m.checkByte l
  if m.foldsText then throw ⟨.noCaseFolding, l.extent⟩

def checkMember (m : Mode) (l : Literal) : Except Fault Unit := do
  m.checkByte l
  if !m.ofText && 127 < l.char.toNat then throw ⟨.textAmongBytes, l.extent⟩

def checkShorthand (m : Mode) (extent : Extent) (negated : Bool) : Except Fault Unit :=
  if m.ofText then .error ⟨.noShorthand, extent⟩
  else if negated then .error ⟨.bytesOutsideText, extent⟩
  else .ok ()

def property (m : Mode) : Flaw := if m.ofText then .noProperty else .textAmongBytes

end Mode

/-- What a class is known to hold. Nothing and everything are the same in any case. -/
inductive Coverage
  | nothing
  | something
  | everything
deriving DecidableEq

namespace Coverage

def union : Coverage → Coverage → Coverage
  | nothing, c | c, nothing => c
  | everything, everything => everything
  | _, _ => something

def negate : Coverage → Coverage
  | nothing => everything
  | something => something
  | everything => nothing

def operate (op : SetOperation) (left right : Coverage) : Coverage :=
  if left = something || right = something then something
  else
    match op with
    | .intersection => if left = right then left else nothing
    | .difference => if left = right then nothing else left
    | .symmetricDifference => if left = right then nothing else everything

def checkCase (c : Coverage) (m : Mode) (extent : Extent) : Except Fault Unit :=
  if m.foldsText && c = something then .error ⟨.noCaseFolding, extent⟩ else .ok ()

def close (c : Coverage) (m : Mode) (extent : Extent) (negated : Bool) : Except Fault Coverage := do
  c.checkCase m extent
  if negated && !m.ofText then throw ⟨.bytesOutsideText, extent⟩
  return if negated then c.negate else c

end Coverage

mutual
def ClassSet.add (m : Mode) (c : Coverage) : ClassSet → Except Fault Coverage
  | .empty _ => return c
  | .literal l => do
    m.checkMember l
    return .something
  | .range _ first last => do
    m.checkMember first
    m.checkMember last
    return .something
  | .named e negated => do return c.union (← Coverage.something.close m e negated)
  | .shorthand e negated => do
    m.checkShorthand e negated
    return .something
  | .property e => throw ⟨m.property, e⟩
  | .bracketed e negated inside => do return c.union (← (← inside.add m .nothing).close m e negated)
  | .union _ items => ClassSet.addAll m c items
  | .operation _ op left right => do
    let l ← left.add m .nothing
    let r ← right.add m .nothing
    r.checkCase m right.extent
    l.checkCase m left.extent
    return c.union (l.operate op r)

def ClassSet.addAll (m : Mode) (c : Coverage) : List ClassSet → Except Fault Coverage
  | [] => return c
  | s :: rest => do ClassSet.addAll m (← s.add m c) rest
end

mutual
/-- The mode after a part of a pattern. Flags last to the end of the group that they are in. -/
def Tree.check (m : Mode) : Tree → Except Fault Mode
  | .empty _ => return m
  | .flags _ marks => return m.apply marks
  | .literal l => do
    m.checkLiteral l
    return m
  | .dot e => if m.ofText then return m else throw ⟨.bytesOutsideText, e⟩
  | .assertion _ atWord => return { m with asksForWords := m.asksForWords || (atWord && m.ofText) }
  | .shorthand e negated => do
    m.checkShorthand e negated
    return m
  | .property e => throw ⟨m.property, e⟩
  | .bracketed e negated inside => do
    let _ ← (← inside.add m .nothing).close m e negated
    return m
  | .repetition _ sub => sub.check m
  | .group _ marks sub => do
    let inside ← sub.check (m.apply marks)
    return { m with asksForWords := inside.asksForWords }
  | .alternation _ trees | .concat _ trees => Tree.checkAll m trees

def Tree.checkAll (m : Mode) : List Tree → Except Fault Mode
  | [] => return m
  | t :: rest => do Tree.checkAll (← t.check m) rest
end

inductive Refusal
  | fault (f : Fault)
  | wordEdge

namespace Refusal

def chain (pattern : List Char) : Refusal → List String
  | fault f => ["error building NFA", "error parsing regex", f.message pattern]
  | wordEdge =>
    ["unsupported regex feature for DFAs: cannot build DFAs for regexes with Unicode word boundaries; " ++
      "switch to ASCII word boundaries, or heuristically enable Unicode word boundaries or use a " ++
      "different regex engine"]

end Refusal

def check (pattern : List Char) : Except Refusal Unit := do
  let mode ← (do
    let tree ← Tree.ofText pattern
    tree.checkDepth 0
    tree.check .start : Except Fault Mode).mapError .fault
  if mode.asksForWords then throw .wordEdge

end QuantileMonitor.Pattern
