import QuantileMonitor.Pattern.Place

/-! What can be wrong with a pattern. -/

namespace QuantileMonitor.Pattern

inductive Flaw
  | unclosedGroup
  | unopenedGroup
  | lookAround
  | tooDeep
  | nothingToRepeat
  | unclosedCount
  | emptyCount
  | badCount
  | unclosedClass
  | badRange
  | badRangeEnd
  | badClassEscape
  | unfinishedEscape
  | unknownEscape
  | backreference
  | badHexDigit
  | noCharacter
  | badProperty
  | unclosedBoundary
  | boundaryOrCount
  | unknownFlag
  | flagWanted
  | duplicateFlag (first : Extent)
  | repeatedNegation (first : Extent)
  | danglingNegation
  | unclosedName
  | emptyName
  | badName
  | duplicateName (first : Extent)
  | bytesOutsideText
  | textAmongBytes
  | noProperty
  | noShorthand
  | noCaseFolding
deriving DecidableEq

namespace Flaw

def depthLimit : Nat := 250

def message : Flaw → String
  | unclosedGroup => "unclosed group"
  | unopenedGroup => "unopened group"
  | lookAround => "look-around, including look-ahead and look-behind, is not supported"
  | tooDeep => "exceed the maximum number of nested parentheses/brackets (" ++ toString depthLimit ++ ")"
  | nothingToRepeat => "repetition operator missing expression"
  | unclosedCount => "unclosed counted repetition"
  | emptyCount => "repetition quantifier expects a valid decimal"
  | badCount => "decimal literal invalid"
  | unclosedClass => "unclosed character class"
  | badRange => "invalid character class range, the start must be <= the end"
  | badRangeEnd => "invalid range boundary, must be a literal"
  | badClassEscape => "invalid escape sequence found in character class"
  | unfinishedEscape => "incomplete escape sequence, reached end of pattern prematurely"
  | unknownEscape => "unrecognized escape sequence"
  | backreference => "backreferences are not supported"
  | badHexDigit => "invalid hexadecimal digit"
  | noCharacter => "hexadecimal literal is not a Unicode scalar value"
  | badProperty => "invalid Unicode character class"
  | unclosedBoundary => "special word boundary assertion is either unclosed or contains an invalid character"
  | boundaryOrCount =>
    "found either the beginning of a special word boundary or a bounded repetition on a \\b " ++
      "with an opening brace, but no closing brace"
  | unknownFlag => "unrecognized flag"
  | flagWanted => "expected flag but got end of regex"
  | duplicateFlag _ => "duplicate flag"
  | repeatedNegation _ => "flag negation operator repeated"
  | danglingNegation => "dangling flag negation operator"
  | unclosedName => "unclosed capture group name"
  | emptyName => "empty capture group name"
  | badName => "invalid capture group character"
  | duplicateName _ => "duplicate capture group name"
  | bytesOutsideText => "pattern can match invalid UTF-8"
  | textAmongBytes => "Unicode not allowed here"
  | noProperty => "Unicode property not found"
  | noShorthand =>
    "Unicode-aware Perl class not found (make sure the unicode-perl feature is enabled)"
  | noCaseFolding =>
    "Unicode-aware case insensitivity matching is not available " ++
      "(make sure the unicode-case feature is enabled)"

def other? : Flaw → Option Extent
  | duplicateFlag first | repeatedNegation first | duplicateName first => some first
  | _ => none

end Flaw

structure Fault where
  flaw : Flaw
  extent : Extent
deriving DecidableEq

def Fault.extents (f : Fault) : List Extent :=
  match f.flaw.other? with
  | none => [f.extent]
  | some other => if f.extent.le other then [f.extent, other] else [other, f.extent]

abbrev Reading (α : Type) := StateT Cursor (Except Fault) α

def fail {α : Type} (flaw : Flaw) (extent : Extent) : Reading α := throw ⟨flaw, extent⟩

def nextOr (flaw : Flaw) (start : Place) : Reading Char := do
  match (← get).rest with
  | [] => fail flaw ((← get).since start)
  | c :: _ => return c

end QuantileMonitor.Pattern
