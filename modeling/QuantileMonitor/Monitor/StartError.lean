import QuantileMonitor.Entity
import QuantileMonitor.Poll.Poller
import QuantileMonitor.Settings.Check
import QuantileMonitor.Device.Uevent

/-! Why a monitor does not start. -/

namespace QuantileMonitor.Monitor

open Device

inductive StartError
  | settings (cause : SettingsError)
  | deviceFilter (cause : DeviceError)
  | trackedDevices (cause : DeviceError)
  | unknownSyscall (cause : UnknownSyscall)
  | noTracing (origin : Origin) (entities : Nat)
  | noDevices (root : String)
  | depth (name : String) (cause : Poll.OpenError)
  | notPolled (group member : String)
  | tooManyGroups (index : Nat)
  | outputTaken

def StartError.chain : StartError → List String
  | settings cause => "validating config" :: cause.chain
  | deviceFilter cause => "parsing device filter" :: cause.chain
  | trackedDevices cause => "resolving tracked devices" :: cause.chain
  | unknownSyscall cause => [cause.message]
  | noTracing origin entities =>
    [origin.display ++ " latency tracing requires building with the `bpf` feature (" ++
      toString entities ++ " filtered entities)"]
  | noDevices root => ["no block devices to poll under " ++ root]
  | depth name cause => ("opening queue depth for " ++ name) :: cause.chain
  | notPolled group member => ["group " ++ group ++ " member " ++ member ++ " is not a polled device"]
  | tooManyGroups index =>
    ["too many groups: " ++ toString index, "out of range integral type conversion attempted"]
  | outputTaken => ["renderer output already taken"]

end QuantileMonitor.Monitor
