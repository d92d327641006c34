import QuantileMonitor.Device.Names
import QuantileMonitor.Frame.Summary
import QuantileMonitor.Frame.Table

/-! Whole frames, and what becomes of them. A frame is built from a snapshot and then written in one
go; building it counts the drops as told, whether or not the frame can be written. -/

namespace QuantileMonitor.Frame

open Device Ingest

def clearScreen : String := "\x1b[H\x1b[J"

def legend : String := "Legend: █ = current  ░ = p99 (long-term)  - = unused"

def timeOfDay (hour minute second : Nat) : String :=
  let two (n : Nat) : String := String.ofList ((toString n).toList.leftpad 2 '0')
  two hour ++ ":" ++ two minute ++ ":" ++ two second

namespace Options

def title {γ : Type} (o : Options) (clock : String) (s : Snapshot γ) : String :=
  (if o.batch then "[" ++ clock ++ "] " ++ o.heading else o.heading ++ " - " ++ clock) ++
    " (uptime: " ++ elapsed (.between s.startedAt s.takenAt) ++
    ", interval: " ++ elapsed (.between s.lastReset s.takenAt) ++ "/" ++ elapsed o.interval ++
    ") | " ++ o.strategy

def lines {γ : Type} (o : Options) (clock : String) (gauge : Option Gauge) (names : List String)
    (s : Snapshot γ) (summary : String) : List (List Char) :=
  let entries := names.zip s.entities
  [(o.title clock s).toList, o.rule '='] ++ o.table gauge .interval entries ++ [[]] ++
    o.table gauge .lifetime entries ++ [o.rule '=', summary.toList] ++
    (match o.view with
      | .latency => []
      | .queue => [legend.toList]) ++
    (if o.batch then [[]] else [])

def text (o : Options) (lines : List (List Char)) : String :=
  (if o.batch then "" else clearScreen) ++ String.ofList (lines.flatMap (· ++ ['\n']))

end Options

structure Screen where
  options : Options
  names : Names
  last : Mark

namespace Screen

variable {γ : Type}

def start (options : Options) (names : Names) : Screen := ⟨options, names, none⟩

def build (s : Screen) (tree : SysTree) (clock : String) (gauge : Option Gauge) (snap : Snapshot γ)
    (totals : Totals) (recent : Nat) : String × Screen :=
  let (names, known) := s.names.all tree (snap.entities.map (·.1))
  let o := s.options
  (o.text (o.lines clock gauge names snap (summary s.last snap totals recent)),
    ⟨o, known, some (snap.takenAt, snap.totalCount)⟩)

def render (s : Screen) (tree : SysTree) (clock : String) (gauge : Option Gauge) (snap : Snapshot γ)
    (c : Counters) : String × Screen × Counters :=
  let (recent, counters) := c.takeDropped
  let (frame, s) := s.build tree clock gauge snap c.totals recent
  (frame, s, counters)

end Screen

inductive Ending
  | written
  | failed
  /-- The writer is gone, and nothing is written from then on. -/
  | lost
deriving DecidableEq

structure Output where
  attempts : Nat
  frames : Nat
  latest : Option String
  isOpen : Bool

namespace Output

def start : Output := ⟨0, 0, none, true⟩

def write (o : Output) (ending : Ending) (frame : String) : Output :=
  if o.isOpen then
    let o := { o with attempts := o.attempts + 1 }
    match ending with
    | .written => { o with frames := o.frames + 1, latest := some frame }
    | .failed => o
    | .lost => { o with isOpen := false }
  else o

end Output

end QuantileMonitor.Frame
