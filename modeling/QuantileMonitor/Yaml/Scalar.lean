import QuantileMonitor.Text.Numeral
import QuantileMonitor.Yaml.Source

/-! The texts of scalars: plain, in quotes, or as an indented block. Lines are folded: one break
between two words counts as a space, and of several breaks the first is dropped. -/

namespace QuantileMonitor.Yaml

inductive Style
  | plain
  | quoted
  | literal
  | folded
deriving DecidableEq

def fold : List Char → List Char
  | '\n' :: rest => if rest.isEmpty then [' '] else rest
  | breaks => breaks

structure Gap where
  placed : Source

namespace Gap

def take (s : Source) : Gap × Source :=
  let (gap, rest) := s.span fun c => isGap c.char
  (⟨gap⟩, rest)

def breaks (g : Gap) : List Char := (g.placed.map (·.char)).filter isBreak

def text (g : Gap) : List Char :=
  if g.breaks.isEmpty then g.placed.map (·.char) else fold g.breaks

def abusesTab (g : Gap) (floor : Nat) : Bool :=
  (g.placed.dropWhile fun c => !isBreak c.char).any fun c => c.char = '\t' && c.column < floor

end Gap

/-! Plain scalars -/

/-- The longest run of characters without a gap. A colon before a gap ends it, and so do the marks of a
flow collection inside one. -/
def plainWord (inFlow : Bool) : Source → Except Flaw (List Char × Source)
  | [] => .ok ([], [])
  | c :: rest =>
    if inFlow && c.char = ':' && (rest.head?.any fun d => d.char = '?' || isFlowMark d.char) then .error .badColon
    else if isGap c.char || (c.char = ':' && atGap rest) ||
        (inFlow && isFlowMark c.char) then
      .ok ([], c :: rest)
    else do
      let (word, rest) ← plainWord inFlow rest
      return (c.char :: word, rest)

def endsPlain (inFlow : Bool) (floor : Nat) (s : Source) : Bool :=
  match s with
  | [] => true
  | c :: _ => (!inFlow && c.column < floor) || atDocumentMark s || c.char = '#'

def plainFrom (inFlow : Bool) (floor : Nat) : Nat → Source → Except Flaw (List Char × Bool × Source)
  | 0, s => .ok ([], false, s)
  | fuel + 1, s => do
    let (word, rest) ← plainWord inFlow s
    let (gap, next) := Gap.take rest
    if gap.abusesTab floor then throw .tab
    let broke := !gap.breaks.isEmpty
    if gap.placed.isEmpty || endsPlain inFlow floor next then return (word, broke, next)
    let (text, brokeLater, next) ← plainFrom inFlow floor fuel next
    if text.isEmpty then return (word, broke, next)
    return (word ++ gap.text ++ text, brokeLater, next)

def plain (inFlow : Bool) (floor : Nat) (s : Source) : Except Flaw (List Char × Bool × Source) :=
  plainFrom inFlow floor (s.length + 1) s

/-! Scalars in quotes -/

def hexChar (digits : Nat) (s : Source) : Except Flaw (Char × Source) :=
  match (s.take digits).mapM fun c => Text.hexValue? c.char with
  | none => .error .badEscape
  | some values =>
    let n := values.foldl (fun n v => 16 * n + v) 0
    if values.length = digits && (n < 0xd800 || (0xe000 ≤ n && n ≤ 0x10ffff)) then
      .ok (Char.ofNat n, s.drop digits)
    else .error .badEscape

def escaped (s : Source) : Except Flaw (Char × Source) :=
  match s with
  | [] => .error .badEscape
  | c :: rest =>
    match c.char with
    | '0' => .ok ('\x00', rest)
    | 'a' => .ok ('\x07', rest)
    | 'b' => .ok ('\x08', rest)
    | 't' | '\t' => .ok ('\t', rest)
    | 'n' => .ok ('\n', rest)
    | 'v' => .ok ('\x0b', rest)
    | 'f' => .ok ('\x0c', rest)
    | 'r' => .ok ('\r', rest)
    | 'e' => .ok ('\x1b', rest)
    | ' ' => .ok (' ', rest)
    | '\x22' => .ok (doubleQuote, rest)
    | '/' => .ok ('/', rest)
    | '\x5c' => .ok (backslash, rest)
    | 'N' => .ok ('\u0085', rest)
    | '_' => .ok ('\u00a0', rest)
    | 'L' => .ok ('\u2028', rest)
    | 'P' => .ok ('\u2029', rest)
    | 'x' => hexChar 2 rest
    | 'u' => hexChar 4 rest
    | 'U' => hexChar 8 rest
    | _ => .error .badEscape

def quotedFrom (quote : Char) : Nat → Source → Except Flaw (List Char × Source)
  | 0, _ => .error .unclosedQuote
  | fuel + 1, s =>
    match s with
    | [] => .error .unclosedQuote
    | c :: rest => do
      if atDocumentMark s then throw .unclosedQuote
      if c.char = quote then
        if quote = singleQuote && startsWith singleQuote rest then
          let (text, next) ← quotedFrom quote fuel (rest.drop 1)
          return (singleQuote :: text, next)
        else return ([], rest)
      else if quote = doubleQuote && c.char = backslash then
        match rest with
        | d :: after =>
          if isBreak d.char then
            let (gap, next) := Gap.take after
            let (text, next) ← quotedFrom quote fuel next
            return (gap.breaks ++ text, next)
          else
            let (char, next) ← escaped rest
            let (text, next) ← quotedFrom quote fuel next
            return (char :: text, next)
        | [] => throw .badEscape
      else if isGap c.char then
        let (gap, next) := Gap.take s
        let (text, next) ← quotedFrom quote fuel next
        return (gap.text ++ text, next)
      else
        let (text, next) ← quotedFrom quote fuel rest
        return (c.char :: text, next)

def quoted (quote : Char) (s : Source) : Except Flaw (List Char × Source) :=
  quotedFrom quote (s.length + 1) s

/-! Block scalars -/

inductive Chomp
  | strip
  | clip
  | keep

structure BlockHeader where
  chomp : Chomp
  increment : Option Nat

def chomp? (s : Source) : Option (Chomp × Source) :=
  match s with
  | c :: rest => if c.char = '+' then some (.keep, rest) else if c.char = '-' then some (.strip, rest) else none
  | [] => none

def increment? (s : Source) : Except Flaw (Option Nat × Source) :=
  match s with
  | c :: rest =>
    if c.char = '0' then .error .badBlockHeader
    else if c.char.isDigit then .ok (some (c.char.toNat - '0'.toNat), rest)
    else .ok (none, s)
  | [] => .ok (none, s)

def BlockHeader.take (s : Source) : Except Flaw (BlockHeader × Source) := do
  match chomp? s with
  | some (chomp, s) =>
    let (increment, s) ← increment? s
    return (⟨chomp, increment⟩, s)
  | none =>
    let (increment, s) ← increment? s
    match increment, chomp? s with
    | some _, some (chomp, s) => return (⟨chomp, increment⟩, s)
    | _, _ => return (⟨.clip, increment⟩, s)

/-- The breaks of lines that hold at most indentation; also the column reached, `widest` before. An
indentation of 0 is not yet known. -/
def blankLines (indent widest : Nat) : Source → Except Flaw (List Char × Nat × Source)
  | [] => .ok ([], widest, [])
  | c :: rest =>
    let indents := indent = 0 || c.column < indent
    if c.char = ' ' && indents then blankLines indent widest rest
    else
      let widest := max widest c.column
      if c.char = '\t' && indents then .error .tab
      else if isBreak c.char then do
        let (breaks, widest, rest) ← blankLines indent widest rest
        return (c.char :: breaks, widest, rest)
      else .ok ([], widest, c :: rest)

/-- What stands between two lines of a block: the break that ends the first, and the blank lines after
it. Breaks are folded between lines that do not begin with a blank. -/
def joinLines (folds : Bool) (ending blanks : List Char) : List Char :=
  if folds && ending = ['\n'] then (if blanks.isEmpty then [' '] else blanks) else ending ++ blanks

def blockLines (literal : Bool) (indent : Nat) :
    Nat → Bool → List Char → List Char → Source → Except Flaw (List Char × List Char × List Char × Source)
  | 0, _, ending, blanks, s => .ok ([], ending, blanks, s)
  | fuel + 1, wasIndented, ending, blanks, s =>
    match s with
    | [] => .ok ([], ending, blanks, [])
    | c :: _ =>
      if c.column ≠ indent then .ok ([], ending, blanks, s)
      else do
        let isIndented := c.char = ' ' || c.char = '\t'
        let joint := joinLines (!literal && !wasIndented && !isIndented) ending blanks
        let (line, rest) := s.span fun c => !isBreak c.char
        let nextEnding := (rest.take 1).map (·.char)
        let (nextBlanks, _, rest) ← blankLines indent 0 (rest.drop 1)
        let (text, ending, blanks, rest) ← blockLines literal indent fuel isIndented nextEnding nextBlanks rest
        return (joint ++ line.map (·.char) ++ text, ending, blanks, rest)

def block (literal : Bool) (base floor : Nat) (s : Source) : Except Flaw (List Char × Source) := do
  let (header, s) ← BlockHeader.take s
  let s ← endLine .badBlockHeader s
  let given := header.increment.elim 0 (base + ·)
  let (blanks, widest, s) ← blankLines given 0 s
  let indent := if given = 0 then max widest (max floor 1) else given
  let (text, ending, blanks, s) ← blockLines literal indent (s.length + 1) false [] blanks s
  match header.chomp with
  | .strip => return (text, s)
  | .clip => return (text ++ ending, s)
  | .keep => return (text ++ ending ++ blanks, s)

end QuantileMonitor.Yaml
