import QuantileMonitor.Text.Numeral
import QuantileMonitor.Yaml.Source

/-! Tags, and the names of anchors. A tag is written in full between angle brackets, or as a handle and
a rest; what a handle stands for is the document's business. -/

namespace QuantileMonitor.Yaml

def isNameChar (c : Char) : Bool := c.isAlphanum || c = '_' || c = '-'

def anchorName (s : Source) : Except Flaw (String × Source) :=
  let (name, rest) := s.span fun c => isNameChar c.char
  let ends := atGap rest ||
    rest.head?.any fun c => ['?', ':', ',', ']', '\x7d', '%', '@', '\x60'].contains c.char
  if name.isEmpty || !ends then .error .badAnchor
  else .ok (String.ofList (name.map (·.char)), rest)

structure Tag where
  bytes : List UInt8
deriving DecidableEq

namespace Tag

def ofString (s : String) : Tag := ⟨s.toUTF8.toList⟩

def append (a b : Tag) : Tag := ⟨a.bytes ++ b.bytes⟩

def nonSpecific : Tag := ofString "!"

def null : Tag := ofString "tag:yaml.org,2002:null"

def bool : Tag := ofString "tag:yaml.org,2002:bool"

def int : Tag := ofString "tag:yaml.org,2002:int"

def float : Tag := ofString "tag:yaml.org,2002:float"

def own? (t : Tag) : Option String :=
  match t.bytes with
  | 0x21 :: [] => some "!"
  | 0x21 :: rest => String.fromUTF8? rest.toByteArray
  | _ => none

def isTagChar (verbatim : Bool) (c : Char) : Bool :=
  isNameChar c || ";/?:@&=+$.!~*'()".toList.contains c || (verbatim && [',', '[', ']'].contains c)

def escapedByte (s : Source) : Except Flaw (UInt8 × Source) :=
  match s with
  | percent :: high :: low :: rest =>
    match percent.char, Text.hexValue? high.char, Text.hexValue? low.char with
    | '%', some h, some l => .ok ((16 * h + l).toUInt8, rest)
    | _, _, _ => .error .badTag
  | _ => .error .badTag

def continuations? (first : UInt8) : Option Nat :=
  if first &&& 0x80 = 0 then some 0
  else if first &&& 0xe0 = 0xc0 then some 1
  else if first &&& 0xf0 = 0xe0 then some 2
  else if first &&& 0xf8 = 0xf0 then some 3
  else none

def continuationBytes : Nat → Source → Except Flaw (List UInt8 × Source)
  | 0, s => .ok ([], s)
  | n + 1, s => do
    let (byte, s) ← escapedByte s
    if byte &&& 0xc0 ≠ 0x80 then throw .badTag
    let (bytes, s) ← continuationBytes n s
    return (byte :: bytes, s)

def escapedChar (s : Source) : Except Flaw (List UInt8 × Source) := do
  let (first, s) ← escapedByte s
  match continuations? first with
  | none => throw .badTag
  | some n =>
    let (bytes, s) ← continuationBytes n s
    return (first :: bytes, s)

def takeChars (verbatim : Bool) : Nat → Source → Except Flaw (List UInt8 × Source)
  | 0, s => .ok ([], s)
  | fuel + 1, s =>
    match s with
    | [] => .ok ([], [])
    | c :: rest => do
      if c.char = '%' then
        let (bytes, rest) ← escapedChar s
        let (more, rest) ← takeChars verbatim fuel rest
        return (bytes ++ more, rest)
      else if isTagChar verbatim c.char then
        let (more, rest) ← takeChars verbatim fuel rest
        return (c.char.toUInt8 :: more, rest)
      else return ([], s)

def take (verbatim : Bool) (s : Source) : Except Flaw (Tag × Source) := do
  let (bytes, rest) ← takeChars verbatim s.length s
  return (⟨bytes⟩, rest)

def takeSome (verbatim : Bool) (s : Source) : Except Flaw (Tag × Source) := do
  let (t, rest) ← take verbatim s
  if t.bytes.isEmpty then throw .badTag else return (t, rest)

def scan (inFlow : Bool) (s : Source) : Except Flaw ((String × Tag) × Source) := do
  let (name, after) := s.span fun c => isNameChar c.char
  let (found, rest) ←
    if startsWith '<' s then do
      let (t, rest) ← takeSome true (s.drop 1)
      if startsWith '>' rest then pure (("", t), rest.drop 1) else throw .badTag
    else if startsWith '!' after then do
      let (t, rest) ← takeSome false (after.drop 1)
      pure ((String.ofList ('!' :: name.map (·.char) ++ ['!']), t), rest)
    else do
      let (t, rest) ← take false s
      pure (if t.bytes.isEmpty then ("", nonSpecific) else ("!", t), rest)
  if atGap rest || (inFlow && startsWith ',' rest) then return (found, rest) else throw .badTag

end Tag

end QuantileMonitor.Yaml
