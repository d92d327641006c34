/-! A failure with its causes as text. -/

namespace QuantileMonitor.Program

def numberWidth : Nat := 5

def indented (mark text : String) : String :=
  let blanks := List.replicate mark.length ' '
  mark ++ String.ofList (text.toList.flatMap fun c => if c = '\n' then '\n' :: blanks else [c])

def causeLines : List String → List String
  | [] => []
  | [cause] => ["", "Caused by:", indented "    " cause]
  | causes =>
    "" :: "Caused by:" :: causes.zipIdx.map fun (cause, i) =>
      indented (String.ofList ((toString i).toList.leftpad numberWidth ' ') ++ ": ") cause

def report (chain : List String) : String :=
  let lines := ("Error: " ++ chain.headD "") :: causeLines chain.tail
  String.join (lines.map (· ++ "\n"))

end QuantileMonitor.Program
