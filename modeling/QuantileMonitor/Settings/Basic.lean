import QuantileMonitor.Device.SysTree
import QuantileMonitor.Device.Syscall
import QuantileMonitor.Quantile.Strategy
import QuantileMonitor.Span

/-! What a monitor measures and how, with a default for everything. -/

namespace QuantileMonitor

inductive Mode
  | block
  | syscall
  | queue
deriving DecidableEq

namespace Mode

def isLatency : Mode → Bool
  | block | syscall => true
  | queue => false

def title : Mode → String
  | block => "Block I/O Latency Monitor"
  | syscall => "Syscall Latency Monitor"
  | queue => "Block I/O Queue Monitor"

def ofName? : String → Option Mode
  | "block" => some block
  | "syscall" => some syscall
  | "queue" => some queue
  | _ => none

end Mode

inductive Method
  | histogram
  | reservoir
  | sketch
deriving DecidableEq

namespace Method

def ofName? : String → Option Method
  | "histogram" => some histogram
  | "reservoir" => some reservoir
  | "sketch" => some sketch
  | _ => none

def display : Method → String
  | histogram => "Histogram"
  | reservoir => "Reservoir"
  | sketch => "Sketch"

end Method

structure DeviceGroup where
  name : String
  members : List String
deriving DecidableEq

structure Settings where
  logLevel : String := "info"
  mode : Mode := .block
  /-- Names or number pairs with commas between them; without any, all devices of `devicePrefixes`. -/
  devices : String := ""
  syscalls : List String := Device.Syscall.defaults
  processName : Option String := none
  interval : Span := .ofSeconds 10
  framePeriod : Option Span := none
  batch : Bool := false
  method : Option Method := none
  accuracy : Float := 0.01
  reservoirSize : Nat := 10000
  histogramMax : Nat := 255
  pollPeriod : Option Span := none
  flushEvery : Nat := 1000
  percentiles : Option (List Float) := none
  showTop : Bool := false
  sysRoot : String := Device.SysTree.defaultRoot
  queueCapacity : Nat := 65536
  ringBufferSize : Nat := 8388608
  devicePrefixes : List String := ["nvme", "sd"]
  groups : List DeviceGroup := []
  barWidth : Nat := 30

namespace Settings

open Quantile

def chosenMethod (s : Settings) : Method :=
  s.method.getD <|
    match s.mode with
    | .queue => .reservoir
    | .block | .syscall => .sketch

def strategy (s : Settings) : Strategy :=
  match s.chosenMethod with
  | .histogram => .histogram s.histogramMax
  | .reservoir => .reservoir s.reservoirSize
  | .sketch => .sketch s.accuracy

def frameInterval (s : Settings) : Span :=
  s.framePeriod.getD <|
    match s.mode with
    | .queue => .ofMilliseconds 16
    | .block | .syscall => .ofMilliseconds 100

def latencyPercentiles : List Float := [50, 90, 95, 99, 99.9]

def queuePercentiles : List Float :=
  [10, 20, 30, 40, 50, 60, 70, 80, 90, 95, 99, 99.5, 99.9, 99.95, 99.99, 99.995, 99.999, 100]

def shownPercentiles (s : Settings) : List Float :=
  s.percentiles.getD <|
    match s.mode with
    | .queue => queuePercentiles
    | .block | .syscall => latencyPercentiles

end Settings

end QuantileMonitor
