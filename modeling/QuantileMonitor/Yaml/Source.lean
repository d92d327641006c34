/-! The characters of a YAML text, each with its line and column. -/

namespace QuantileMonitor.Yaml

inductive Flaw
  | unprintable
  | badStart
  | tab
  | keyWithoutColon
  | entryNotAllowed
  | keyNotAllowed
  | valueNotAllowed
  | badColon
  | unclosedQuote
  | badEscape
  | badBlockHeader
  | badAnchor
  | unknownAnchor
  | badTag
  | unknownHandle
  | badDirective
  | badVersion
  | unexpectedToken
  | secondDocument
deriving DecidableEq

def Flaw.message : Flaw → String
  | unprintable => "control characters are not allowed"
  | badStart => "found character that cannot start any token"
  | tab => "found a tab character that violates indentation"
  | keyWithoutColon => "could not find expected ':'"
  | entryNotAllowed => "block sequence entries are not allowed in this context"
  | keyNotAllowed => "mapping keys are not allowed in this context"
  | valueNotAllowed => "mapping values are not allowed in this context"
  | badColon => "found unexpected ':'"
  | unclosedQuote => "found unexpected end of stream"
  | badEscape => "found unknown escape character"
  | badBlockHeader => "did not find expected comment or line break"
  | badAnchor => "did not find expected alphabetic or numeric character"
  | unknownAnchor => "unknown anchor"
  | badTag => "did not find expected tag URI"
  | unknownHandle => "found undefined tag handle"
  | badDirective => "found an incorrect directive"
  | badVersion => "found incompatible YAML document"
  | unexpectedToken => "did not find expected node content"
  | secondDocument => "more than one document"

structure Placed where
  char : Char
  line : Nat
  column : Nat

abbrev Source := List Placed

def isBreak (c : Char) : Bool := c = '\n' || c = '\u2028' || c = '\u2029'

def isGap (c : Char) : Bool := c = ' ' || c = '\t' || isBreak c

def singleQuote : Char := '\x27'

def doubleQuote : Char := '\x22'

def backslash : Char := '\x5c'

def byteOrderMark : Char := '\ufeff'

def isFlowMark (c : Char) : Bool := c = ',' || c = '[' || c = ']' || c = '\x7b' || c = '\x7d'

def isPrintable (c : Char) : Bool :=
  let n := c.toNat
  n = 0x09 || n = 0x0a || n = 0x0d || (0x20 ≤ n && n ≤ 0x7e) || n = 0x85 || (0xa0 ≤ n && n ≤ 0xd7ff) ||
    (0xe000 ≤ n && n ≤ 0xfffd) || 0x10000 ≤ n

def unifyBreaks : List Char → List Char
  | [] => []
  | '\r' :: '\n' :: rest => '\n' :: unifyBreaks rest
  | c :: rest => (if c = '\r' || c = '\u0085' then '\n' else c) :: unifyBreaks rest

def placeFrom (line column : Nat) : List Char → Source
  | [] => []
  | c :: rest =>
    ⟨c, line, column⟩ :: if isBreak c then placeFrom (line + 1) 0 rest else placeFrom line (column + 1) rest

def Source.ofText (text : List Char) : Except Flaw Source :=
  if text.all isPrintable then .ok (placeFrom 0 0 (unifyBreaks text)) else .error .unprintable

def atGap : Source → Bool
  | [] => true
  | c :: _ => isGap c.char

def startsWith (char : Char) (s : Source) : Bool := s.head?.any (·.char = char)

def endLine (flaw : Flaw) (s : Source) : Except Flaw Source :=
  let s := s.dropWhile fun c => c.char = ' ' || c.char = '\t'
  let s := if startsWith '#' s then s.dropWhile fun c => !isBreak c.char else s
  match s with
  | [] => .ok []
  | c :: rest => if isBreak c.char then .ok rest else .error flaw

def atTriple (mark : Char) : Source → Bool
  | a :: b :: c :: rest => a.column = 0 && a.char = mark && b.char = mark && c.char = mark && atGap rest
  | _ => false

def atDocumentMark (s : Source) : Bool := atTriple '-' s || atTriple '.' s

end QuantileMonitor.Yaml
