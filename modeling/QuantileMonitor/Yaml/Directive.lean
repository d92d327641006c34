import QuantileMonitor.Text.Numeral
import QuantileMonitor.Yaml.Tag

/-! Directives, which tell before a document which version it is written for and what the handles of
its tags stand for. -/

namespace QuantileMonitor.Yaml

inductive Directive
  | version (major minor : Nat)
  | handle (name : String) (start : Tag)
deriving DecidableEq

namespace Directive

def skipBlanks (s : Source) : Source := s.dropWhile fun c => c.char = ' ' || c.char = '\t'

def digitLimit : Nat := 9

def number (s : Source) : Except Flaw (Nat × Source) :=
  let (digits, rest) := s.span fun c => c.char.isDigit
  if digits.isEmpty || digitLimit < digits.length then .error .badDirective
  else .ok (Text.digitsValue (digits.map (·.char)), rest)

def takeVersion (s : Source) : Except Flaw (Directive × Source) := do
  let (major, s) ← number s
  if !startsWith '.' s then throw .badDirective
  let (minor, s) ← number (s.drop 1)
  return (version major minor, s)

def takeHandle (s : Source) : Except Flaw (Directive × Source) := do
  if !startsWith '!' s then throw .badDirective
  let (name, after) := (s.drop 1).span fun c => isNameChar c.char
  let (name, s) ←
    if startsWith '!' after then pure ('!' :: name.map (·.char) ++ ['!'], after.drop 1)
    else if name.isEmpty then pure (['!'], after)
    else throw .badDirective
  if (skipBlanks s).length = s.length then throw .badDirective
  let (start, s) ← Tag.takeSome true (skipBlanks s)
  if !atGap s then throw .badDirective
  return (handle (String.ofList name) start, s)

def scan (s : Source) : Except Flaw (Directive × Source) := do
  let (name, s) := s.span fun c => isNameChar c.char
  if !atGap s then throw .badDirective
  let (d, s) ←
    match String.ofList (name.map (·.char)) with
    | "YAML" => takeVersion (skipBlanks s)
    | "TAG" => takeHandle (skipBlanks s)
    | _ => throw .badDirective
  return (d, ← endLine .badDirective s)

end Directive

abbrev Handles := List (String × Tag)

namespace Handles

def common : Handles := [("!", Tag.ofString "!"), ("!!", Tag.ofString "tag:yaml.org,2002:")]

def ofDirectives (ds : List Directive) : Except Flaw Handles := do
  let versions := ds.filterMap fun
    | .version major minor => some (major, minor)
    | .handle _ _ => none
  let handles := ds.filterMap fun
    | .version _ _ => none
    | .handle name start => some (name, start)
  if 1 < versions.length then throw .badDirective
  if versions.any fun v => v ≠ (1, 1) && v ≠ (1, 2) then throw .badVersion
  if (handles.map (·.1)).eraseDups.length < handles.length then throw .badDirective
  return handles ++ common

def resolve (hs : Handles) (handle : String) (t : Tag) : Except Flaw Tag :=
  if handle = "" then .ok t
  else
    match hs.lookup handle with
    | none => .error .unknownHandle
    | some start => .ok (start.append t)

end Handles

end QuantileMonitor.Yaml
