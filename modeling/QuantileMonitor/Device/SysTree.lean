import QuantileMonitor.Device.Uevent
import QuantileMonitor.Files

/-! Block devices in a kernel file tree: `block` holds a directory for each device by name, and
`dev/block` one by number. -/

namespace QuantileMonitor.Device

structure SysTree where
  root : String
  files : Files

structure Selected where
  name : String
  id : DeviceId
deriving DecidableEq

def isTracked (name : String) (starts : List String) : Bool :=
  starts.any fun start => start.toList.isPrefixOf name.toList

namespace SysTree

def defaultRoot : String := "/sys"

def blockPath (t : SysTree) : String := joinPath t.root "block"

def inflightPath (t : SysTree) (name : String) : String :=
  joinPath (joinPath t.blockPath name) "inflight"

def deviceId (t : SysTree) (name : String) : Except DeviceError DeviceId :=
  match t.files.readText (joinPath (joinPath t.blockPath name) "uevent") with
  | .error _ => .error (.notFound name)
  | .ok content => ofUevent name content.toList

def deviceName (t : SysTree) (id : DeviceId) : Option String :=
  match t.files.readText (joinPath (joinPath (joinPath t.root "dev/block") id.display) "uevent") with
  | .error _ => none
  | .ok content => (field? content.toList "DEVNAME").map String.ofList

def blockDevices (t : SysTree) : Except FileError (List String) :=
  (·.mergeSort (· ≤ ·)) <$> t.files.list t.blockPath

def trackedDevices (t : SysTree) (starts : List String) : Except DeviceError (List Selected) :=
  match t.blockDevices with
  | .error e => .error (.list t.blockPath e.message)
  | .ok names => (names.filter (isTracked · starts)).mapM fun name => return ⟨name, ← t.deviceId name⟩

end SysTree

end QuantileMonitor.Device
