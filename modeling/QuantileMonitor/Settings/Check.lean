import QuantileMonitor.Decimal.Shortest
import QuantileMonitor.Settings.Basic

/-! Which settings a monitor can be started with. -/

namespace QuantileMonitor

inductive SettingsError
  | estimator (method : Method) (cause : Quantile.StrategyError)
  | notPositive (setting : String)
  | pollPeriodZero
  | noPercentiles
  | percentileOutside (p : Float)
  | noSyscalls
  | unknownSyscall (cause : Device.UnknownSyscall)
  | groupWithoutName
  | groupWithoutMembers (name : String)

def SettingsError.chain : SettingsError → List String
  | estimator method cause => ["invalid " ++ method.display ++ " estimator settings", cause.message]
  | notPositive setting => [setting ++ " must be positive"]
  | pollPeriodZero => ["poll_interval must be positive when set"]
  | noPercentiles => ["percentiles must not be empty"]
  | percentileOutside p => ["percentile " ++ Decimal.shortest p ++ " is outside [0, 100]"]
  | noSyscalls => ["syscalls must not be empty in syscall mode"]
  | unknownSyscall cause => [cause.message]
  | groupWithoutName => ["group name is required"]
  | groupWithoutMembers name => ["group " ++ name ++ " has no members"]

namespace Settings

def checkPositive (setting : String) (n : Nat) : Except SettingsError Unit :=
  if n = 0 then throw (.notPositive setting) else pure ()

def checkStrategy (s : Settings) : Except SettingsError Unit :=
  match s.strategy.check with
  | .error cause => throw (.estimator s.chosenMethod cause)
  | .ok () => pure ()

def checkPercentiles (ps : List Float) : Except SettingsError Unit := do
  if ps.isEmpty then throw .noPercentiles
  match ps.find? fun p => !(0 ≤ p && p ≤ 100) with
  | some p => throw (.percentileOutside p)
  | none => pure ()

def checkSyscalls (s : Settings) : Except SettingsError Unit :=
  if s.mode = .syscall then
    if s.syscalls.isEmpty then throw .noSyscalls
    else
      match Device.Syscall.ofItems s.syscalls with
      | .error cause => throw (.unknownSyscall cause)
      | .ok _ => pure ()
  else pure ()

def checkGroup (g : DeviceGroup) : Except SettingsError Unit :=
  if g.name = "" then throw .groupWithoutName
  else if g.members.isEmpty then throw (.groupWithoutMembers g.name)
  else pure ()

def check (s : Settings) : Except SettingsError Unit := do
  s.checkStrategy
  checkPositive "flush_every" s.flushEvery
  checkPositive "interval" s.interval.nanoseconds
  checkPositive "frame_interval" s.frameInterval.nanoseconds
  if s.pollPeriod = some .zero then throw .pollPeriodZero
  checkPercentiles s.shownPercentiles
  checkPositive "event_queue_capacity" s.queueCapacity
  checkPositive "ring_buffer_size" s.ringBufferSize
  checkPositive "queue_bar_width" s.barWidth
  s.checkSyscalls
  s.groups.forM checkGroup

end Settings

end QuantileMonitor
