import QuantileMonitor.Frame.Bar
import QuantileMonitor.Frame.Cell
import QuantileMonitor.Gauge
import QuantileMonitor.Window.Basic

/-! A table of one window of every entity: a header, a rule, and a row for each. The rows of the queue
view end in a bar. -/

namespace QuantileMonitor.Frame

inductive View
  | latency
  | queue
deriving DecidableEq

structure Options where
  heading : String
  view : View
  /-- In percent. -/
  percentiles : List Float
  showTop : Bool
  batch : Bool
  interval : Span
  strategy : String
  barWidth : Nat
  fullScale : List (EntityKey × Nat)

inductive Period
  | interval
  | lifetime

namespace Period

def label : Period → String
  | interval => "INTERVAL"
  | lifetime => "LIFETIME"

def window {γ : Type} (s : EntityStats γ) : Period → Window γ
  | interval => s.interval
  | lifetime => s.lifetime

end Period

def nameWidth : Nat := 12

def columnWidth : Nat := 8

def countWidth : Nat := 9

/-- Texts to the right of their columns; one that is too wide keeps its text. -/
def inColumns (texts : List String) : List Char :=
  texts.flatMap fun text => ' ' :: text.toList.leftpad columnWidth ' '

namespace Options

def averagePosition (o : Options) : Option Nat := o.percentiles.findIdx? (· == 50)

def headings (o : Options) : List String :=
  let percentiles := o.percentiles.map percentile
  match o.view with
  | .latency =>
    ["avg"] ++ percentiles ++ ["min"] ++
      (if o.showTop then ["max-4", "max-3", "max-2", "max-1"] else []) ++ ["max"]
  | .queue =>
    ["Current", "Util"] ++
      (percentiles.zipIdx.flatMap fun (heading, i) =>
        heading :: if some i = o.averagePosition then ["Avg"] else []) ++
      (if o.averagePosition.isNone then ["Avg"] else [])

def lineWidth (o : Options) : Nat :=
  let columns := o.headings.length
  let width := nameWidth + 2 + columns * (columnWidth + 1) + 3 + countWidth
  if o.view = .queue then width + (o.barWidth + 4) else width

def rule (o : Options) (c : Char) : List Char := List.replicate o.lineWidth c

def now (gauge : Option Gauge) (key : EntityKey) : Option Nat := gauge.bind (·.get? key)

def queueBar {γ : Type} (o : Options) (gauge : Option Gauge) (key : EntityKey) (s : EntityStats γ) :
    List Char :=
  let full : Float := Scalar.ofNat ((o.fullScale.lookup key).getD o.barWidth)
  let current : Float := Scalar.ofNat ((now gauge key).getD 0)
  let longTerm := (s.lifetime.quantile 0.99).getD 0
  bar (barCells current full o.barWidth) (barCells longTerm full o.barWidth) o.barWidth

/-- An empty window has a dash in every column. Otherwise the largest value has the last column, and those
next to it are preceded by a dash for each that is missing. -/
def latencyCells {γ : Type} (o : Options) (w : Window γ) : List String :=
  if w.exact.count = 0 then List.replicate o.headings.length "-"
  else
    let top := w.top.values
    let belowMax := top.take (top.length - 1)
    [latency? w.exact.mean] ++ (o.percentiles.map fun p => latency? (w.quantile (p / 100))) ++
      [latency w.exact.min] ++
      (if o.showTop then
        List.replicate (4 - belowMax.length) "-" ++ belowMax.map latency
      else []) ++
      [latency w.exact.max]

def queueCells {γ : Type} (o : Options) (gauge : Option Gauge) (key : EntityKey) (w : Window γ) :
    List String :=
  let average := depth w.exact.mean
  [orDash toString (now gauge key), share w.exact.utilization] ++
    (o.percentiles.zipIdx.flatMap fun (p, i) =>
      depth (w.quantile (p / 100)) :: if some i = o.averagePosition then [average] else []) ++
    (if o.averagePosition.isNone then [average] else [])

def cells {γ : Type} (o : Options) (gauge : Option Gauge) (key : EntityKey) (w : Window γ) : List String :=
  match o.view with
  | .latency => o.latencyCells w
  | .queue => o.queueCells gauge key w

def header (o : Options) (period : Period) : List Char :=
  period.label.toList.rightpad nameWidth ' ' ++ [' ', '│'] ++ inColumns o.headings ++ [' ', '│', ' '] ++
    "samples".toList.leftpad countWidth ' ' ++
    if o.view = .queue then [' ', ' '] ++ "Utilization".toList.rightpad (o.barWidth + 2) ' ' else []

def row {γ : Type} (o : Options) (gauge : Option Gauge) (period : Period) (name : String) (key : EntityKey)
    (s : EntityStats γ) : List Char :=
  let w := period.window s
  (name.toList.take nameWidth).rightpad nameWidth ' ' ++ [' ', '│'] ++ inColumns (o.cells gauge key w) ++
    [' ', '│', ' '] ++ (count w.exact.count).toList.leftpad countWidth ' ' ++
    if o.view = .queue then [' ', ' ', '['] ++ o.queueBar gauge key s ++ [']'] else []

def table {γ : Type} (o : Options) (gauge : Option Gauge) (period : Period)
    (entries : List (String × EntityKey × EntityStats γ)) : List (List Char) :=
  o.header period :: o.rule '-' :: entries.map fun (name, key, s) => o.row gauge period name key s

end Options

end QuantileMonitor.Frame
