import QuantileMonitor.Yaml.Directive
import QuantileMonitor.Yaml.Scalar

/-! Tokens. Indentation shows in them as the start and the end of block collections. Whether a scalar
or a flow collection is a key is known only when a colon follows, so each one that may be a key leaves
an empty piece in front of it, which the colon fills. -/

namespace QuantileMonitor.Yaml

inductive Token
  | documentStart
  | documentEnd
  | sequenceStart
  | mappingStart
  | blockEnd
  | flowSequenceStart
  | flowSequenceEnd
  | flowMappingStart
  | flowMappingEnd
  | entry
  | comma
  | key
  | value
  | scalar (style : Style) (text : String)
  | anchor (number : Nat)
  | aliasOf (number : Nat)
  | tag (handle : String) (rest : Tag)
  | directive (d : Directive)
deriving DecidableEq

structure Candidate where
  piece : Nat
  line : Nat
  column : Nat
  required : Bool

def Candidate.span : Nat := 1024

structure Scan where
  pieces : Array (List Token)
  indents : List Nat
  candidate : Option Candidate
  outer : List (Option Candidate)
  keyAllowed : Bool
  anchors : List (String × Nat)

namespace Scan

def start : Scan := ⟨#[], [], none, [], true, []⟩

def inFlow (st : Scan) : Bool := !st.outer.isEmpty

def floor (st : Scan) : Nat := st.indents.head?.elim 0 (· + 1)

def emit (st : Scan) (ts : List Token) : Scan := { st with pieces := st.pieces.push ts }

def reject : Option Candidate → Except Flaw (Option Candidate)
  | some k => if k.required then .error .keyWithoutColon else .ok none
  | none => .ok none

def dropCandidate (st : Scan) : Except Flaw Scan := do
  return { st with candidate := ← reject st.candidate }

def markKey (st : Scan) (c : Placed) : Except Flaw Scan := do
  if st.keyAllowed then
    let st ← st.dropCandidate
    let required := !st.inFlow && st.indents.head? = some c.column
    return { st with
      candidate := some ⟨st.pieces.size, c.line, c.column, required⟩
      pieces := st.pieces.push [] }
  else return st

def expire (st : Scan) (c : Placed) : Except Flaw Scan := do
  let check (k : Option Candidate) : Except Flaw (Option Candidate) :=
    if k.any fun k => k.line < c.line || k.column + Candidate.span < c.column then reject k else .ok k
  return { st with candidate := ← check st.candidate, outer := ← st.outer.mapM check }

def closeBlocks (st : Scan) (column : Option Nat) : Scan :=
  if st.inFlow then st
  else
    let closing := st.indents.takeWhile fun i => column.all (· < i)
    { st with
      indents := st.indents.drop closing.length
      pieces := st.pieces.push (closing.map fun _ => .blockEnd) }

def openBlock (st : Scan) (column : Nat) (t : Token) : List Token × Scan :=
  if st.inFlow || column < st.floor then ([], st)
  else ([t], { st with indents := column :: st.indents })

def documentMark (st : Scan) (t : Token) : Except Flaw Scan := do
  let st ← (st.closeBlocks none).dropCandidate
  return { st.emit [t] with keyAllowed := false }

def flowStart (st : Scan) (c : Placed) (t : Token) : Except Flaw Scan := do
  let st ← st.markKey c
  return { st.emit [t] with candidate := none, outer := st.candidate :: st.outer, keyAllowed := true }

def flowEnd (st : Scan) (t : Token) : Except Flaw Scan := do
  let st ← st.dropCandidate
  let st := { st.emit [t] with keyAllowed := false }
  match st.outer with
  | [] => return st
  | candidate :: outer => return { st with candidate, outer }

def comma (st : Scan) : Except Flaw Scan := do
  let st ← st.dropCandidate
  return { st.emit [.comma] with keyAllowed := true }

def entry (st : Scan) (c : Placed) : Except Flaw Scan := do
  if st.inFlow || !st.keyAllowed then throw .entryNotAllowed
  let (opening, st) := st.openBlock c.column .sequenceStart
  let st ← st.dropCandidate
  return { st.emit (opening ++ [.entry]) with keyAllowed := true }

def explicitKey (st : Scan) (c : Placed) : Except Flaw Scan := do
  if !st.inFlow && !st.keyAllowed then throw .keyNotAllowed
  let (opening, st) := st.openBlock c.column .mappingStart
  let st ← st.dropCandidate
  return { st.emit (opening ++ [.key]) with keyAllowed := !st.inFlow }

def value (st : Scan) (c : Placed) : Except Flaw Scan :=
  match st.candidate with
  | some k =>
    let (opening, st) := st.openBlock k.column .mappingStart
    .ok { st with
      pieces := (st.pieces.setIfInBounds k.piece (opening ++ [.key])).push [.value]
      candidate := none
      keyAllowed := false }
  | none =>
    if !st.inFlow && !st.keyAllowed then .error .valueNotAllowed
    else
      let (opening, st) := st.openBlock c.column .mappingStart
      .ok { st.emit (opening ++ [.value]) with keyAllowed := !st.inFlow }

def blockScalar (st : Scan) (literal : Bool) (rest : Source) : Except Flaw (Scan × Source) := do
  let st ← st.dropCandidate
  let (text, rest) ← block literal (st.indents.head?.getD 0) st.floor rest
  let style : Style := if literal then .literal else .folded
  return ({ st.emit [.scalar style (String.ofList text)] with keyAllowed := true }, rest)

def quotedScalar (st : Scan) (c : Placed) (rest : Source) : Except Flaw (Scan × Source) := do
  let st ← st.markKey c
  let (text, rest) ← quoted c.char rest
  return ({ st.emit [.scalar .quoted (String.ofList text)] with keyAllowed := false }, rest)

def plainScalar (st : Scan) (c : Placed) (rest : Source) : Except Flaw (Scan × Source) := do
  let st ← st.markKey c
  let (text, broke, rest) ← plain st.inFlow st.floor (c :: rest)
  return ({ st.emit [.scalar .plain (String.ofList text)] with keyAllowed := broke }, rest)

/-- An anchor has as its number how many names there are before it. A name that is used again adds none,
so the next anchor gets the number of that one. -/
def anchor (st : Scan) (c : Placed) (rest : Source) : Except Flaw (Scan × Source) := do
  let st ← st.markKey c
  let (name, rest) ← anchorName rest
  let number := st.anchors.length
  let anchors := (name, number) :: st.anchors.filter (·.1 ≠ name)
  return ({ st.emit [.anchor number] with keyAllowed := false, anchors }, rest)

def aliasOf (st : Scan) (c : Placed) (rest : Source) : Except Flaw (Scan × Source) := do
  let st ← st.markKey c
  let (name, rest) ← anchorName rest
  match st.anchors.lookup name with
  | none => throw .unknownAnchor
  | some number => return ({ st.emit [.aliasOf number] with keyAllowed := false }, rest)

def tag (st : Scan) (c : Placed) (rest : Source) : Except Flaw (Scan × Source) := do
  let st ← st.markKey c
  let ((handle, t), rest) ← Tag.scan st.inFlow rest
  return ({ st.emit [.tag handle t] with keyAllowed := false }, rest)

def directive (st : Scan) (rest : Source) : Except Flaw (Scan × Source) := do
  let st ← (st.closeBlocks none).dropCandidate
  let (d, rest) ← Directive.scan rest
  return ({ st.emit [.directive d] with keyAllowed := false }, rest)

def isIndicator (c : Char) : Bool :=
  isFlowMark c ||
    ['#', '&', '*', '!', '|', '>', singleQuote, doubleQuote, '%', '@', '\x60', '-', '?', ':'].contains c

def token (st : Scan) (c : Placed) (rest : Source) : Except Flaw (Scan × Source) := do
  let s := c :: rest
  if c.column = 0 && c.char = '%' then return ← st.directive rest
  if atTriple '-' s then return (← st.documentMark .documentStart, rest.drop 2)
  if atTriple '.' s then return (← st.documentMark .documentEnd, rest.drop 2)
  match c.char with
  | '[' => return (← st.flowStart c .flowSequenceStart, rest)
  | '\x7b' => return (← st.flowStart c .flowMappingStart, rest)
  | ']' => return (← st.flowEnd .flowSequenceEnd, rest)
  | '\x7d' => return (← st.flowEnd .flowMappingEnd, rest)
  | ',' => return (← st.comma, rest)
  | '*' => st.aliasOf c rest
  | '&' => st.anchor c rest
  | '!' => st.tag c rest
  | '|' => if st.inFlow then throw .badStart else st.blockScalar true rest
  | '>' => if st.inFlow then throw .badStart else st.blockScalar false rest
  | '\x27' | '\x22' => st.quotedScalar c rest
  | '-' => if atGap rest then return (← st.entry c, rest) else st.plainScalar c rest
  | '?' => if st.inFlow || atGap rest then return (← st.explicitKey c, rest) else st.plainScalar c rest
  | ':' => if st.inFlow || atGap rest then return (← st.value c, rest) else st.plainScalar c rest
  | char => if isIndicator char || isGap char then throw .badStart else st.plainScalar c rest

/-- Leaves out blanks, comments and breaks. A key may follow a break outside of flow collections; where
one may stand, a tab is no blank. -/
def skip (inFlow : Bool) (keyAllowed inComment : Bool) : Source → Bool × Source
  | [] => (keyAllowed, [])
  | c :: rest =>
    if isBreak c.char then skip inFlow (keyAllowed || !inFlow) false rest
    else if inComment || (c.char = byteOrderMark && c.column = 0) || c.char = ' ' ||
        (c.char = '\t' && (inFlow || !keyAllowed)) then
      skip inFlow keyAllowed inComment rest
    else if c.char = '#' then skip inFlow keyAllowed true rest
    else (keyAllowed, c :: rest)

def run : Nat → Scan → Source → Except Flaw Scan
  | 0, st, _ => .ok st
  | fuel + 1, st, s => do
    let (keyAllowed, s) := skip st.inFlow st.keyAllowed false s
    let st := { st with keyAllowed }
    match s with
    | [] => (st.closeBlocks none).dropCandidate
    | c :: rest =>
      let st ← st.expire c
      let (st, rest) ← (st.closeBlocks (some c.column)).token c rest
      run fuel st rest

end Scan

def Token.scan (s : Source) : Except Flaw (List Token) := do
  let st ← Scan.start.run (s.length + 1) s
  return st.pieces.toList.flatten

end QuantileMonitor.Yaml
