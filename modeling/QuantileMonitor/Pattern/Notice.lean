import QuantileMonitor.Pattern.Fault

/-! A fault shown in its pattern: under each line of it, carets mark the extents that lie in it. Lines
are numbered where there are several. -/

namespace QuantileMonitor.Pattern

namespace Fault

def carets : Nat → List Extent → List Char
  | _, [] => []
  | column, e :: rest =>
    let blanks := e.start.column - 1 - column
    let marks := max 1 (e.stop.column - e.start.column)
    List.replicate blanks ' ' ++ List.replicate marks '^' ++ carets (column + blanks + marks) rest

def lineCount (pattern : List Char) : Nat :=
  (Text.lines pattern).length + if pattern.getLast? = some '\n' then 1 else 0

def margin (width number : Nat) : List Char :=
  if width = 0 then List.replicate 4 ' '
  else (toString number).toList.leftpad width ' ' ++ [':', ' ']

def noteLine (width : Nat) (extents : List Extent) (number : Nat) (line : List Char) : List (List Char) :=
  let margin := margin width number
  match extents.filter fun e => e.isOneLine && e.start.line = number with
  | [] => [margin ++ line]
  | marked => [margin ++ line, List.replicate margin.length ' ' ++ carets 0 marked]

def divider : List Char := List.replicate 79 '~'

def noteLong (e : Extent) : List Char :=
  ("on line " ++ toString e.start.line ++ " (column " ++ toString e.start.column ++ ") through line " ++
    toString e.stop.line ++ " (column " ++ toString (e.stop.column - 1) ++ ")").toList

def notice (pattern : List Char) (f : Fault) : List (List Char) :=
  let count := lineCount pattern
  let width := if count ≤ 1 then 0 else (toString count).length
  let noted := ((Text.lines pattern).zipIdx 1).flatMap fun (line, n) => noteLine width f.extents n line
  let message := ("error: " ++ f.flaw.message).toList
  let long := (f.extents.filter fun e => !e.isOneLine).map noteLong
  "regex parse error:".toList ::
    if pattern.contains '\n' then divider :: noted ++ divider :: long ++ [message] else noted ++ [message]

def message (pattern : List Char) (f : Fault) : String :=
  String.ofList (['\n'].intercalate (f.notice pattern))

end Fault

end QuantileMonitor.Pattern
