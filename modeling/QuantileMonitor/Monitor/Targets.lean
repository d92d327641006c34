import QuantileMonitor.Device.Names
import QuantileMonitor.Device.Selection
import QuantileMonitor.Ingest.Filter
import QuantileMonitor.Monitor.StartError

/-! What the settings ask to measure: in the latency modes the entities to trace, and in queue mode the
devices to poll. -/

namespace QuantileMonitor.Monitor

open Device Ingest

structure LatencyTargets where
  origin : Origin
  numbers : List UInt32
  filter : Filter

def trackedDevices (s : Settings) (tree : SysTree) : Except StartError (List Selected) :=
  (tree.trackedDevices s.devicePrefixes).mapError .trackedDevices

def selectedDevices (s : Settings) (tree : SysTree) : Except StartError (List Selected) :=
  (select tree s.devices).mapError .deviceFilter

def blockTargets (s : Settings) (tree : SysTree) : Except StartError LatencyTargets := do
  let selected ← selectedDevices s tree
  let filter := Filter.ofKeys (selected.map fun d => .device d.id)
  let numbers := selected.map (·.id.raw)
  if selected.isEmpty && !s.devicePrefixes.isEmpty then
    let tracked ← trackedDevices s tree
    return ⟨.block, numbers, filter.withTracked (tracked.map (·.id))⟩
  else return ⟨.block, numbers, filter⟩

def syscallTargets (s : Settings) : Except StartError LatencyTargets :=
  match Syscall.ofItems s.syscalls with
  | .error cause => .error (.unknownSyscall cause)
  | .ok numbers => .ok ⟨.syscall, numbers, .ofKeys (numbers.map .syscall)⟩

/-- The selected devices, if the selection says anything, or else the tracked ones. -/
def pollTargets (s : Settings) (tree : SysTree) : Except StartError (List Selected) :=
  if (Text.trim s.devices.toList).isEmpty then trackedDevices s tree else selectedDevices s tree

/-- Makes the name of a device known; a pair of numbers is no name. -/
def seedName (n : Names) (d : Selected) : Names :=
  if d.name = d.id.display then n else n.insert (.device d.id) d.name

end QuantileMonitor.Monitor
