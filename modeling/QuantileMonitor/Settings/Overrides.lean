import QuantileMonitor.Settings.Basic

/-! Settings given on the command line, which win over those in a file. -/

namespace QuantileMonitor

structure Overrides where
  mode : Option Mode := none
  devices : Option String := none
  interval : Option Span := none
  batch : Bool := false
  method : Option Method := none
  accuracy : Option Float := none
  reservoirSize : Option Nat := none
  histogramMax : Option Nat := none
  pollPeriod : Option Span := none
  flushEvery : Option Nat := none
  framePeriod : Option Span := none
  syscalls : Option (List String) := none
  processName : Option String := none
  showTop : Bool := false

/-- What is not overridden stays; switches are only ever turned on. -/
def Settings.apply (s : Settings) (o : Overrides) : Settings :=
  { s with
    mode := o.mode.getD s.mode
    devices := o.devices.getD s.devices
    interval := o.interval.getD s.interval
    batch := s.batch || o.batch
    method := o.method.or s.method
    accuracy := o.accuracy.getD s.accuracy
    reservoirSize := o.reservoirSize.getD s.reservoirSize
    histogramMax := o.histogramMax.getD s.histogramMax
    pollPeriod := o.pollPeriod.or s.pollPeriod
    flushEvery := o.flushEvery.getD s.flushEvery
    framePeriod := o.framePeriod.or s.framePeriod
    syscalls := o.syscalls.getD s.syscalls
    processName := o.processName.or s.processName
    showTop := s.showTop || o.showTop }

end QuantileMonitor
