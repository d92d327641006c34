import QuantileMonitor.Word

/-! What is measured: block devices, syscalls, and groups of devices. -/

namespace QuantileMonitor

structure DeviceId where
  raw : UInt32
deriving DecidableEq, Hashable

namespace DeviceId

/-- Bits above the twelfth of the major number and above the twentieth of the minor number are lost. -/
def ofNumbers (major minor : UInt32) : DeviceId := ⟨(major <<< 20) ||| (minor &&& 0xfffff)⟩

def major (d : DeviceId) : UInt32 := d.raw >>> 20

def minor (d : DeviceId) : UInt32 := d.raw &&& 0xfffff

def display (d : DeviceId) : String := s!"{d.major.toNat}:{d.minor.toNat}"

end DeviceId

inductive EntityKey
  | device (id : DeviceId)
  | syscall (number : UInt32)
  | group (index : UInt16)
deriving DecidableEq, Hashable

namespace EntityKey

/-- Devices come before syscalls and syscalls before groups, each by number. -/
def rank : EntityKey → Nat
  | device id => id.raw.toNat
  | syscall number => Word.halfBound + number.toNat
  | group index => 2 * Word.halfBound + index.toNat

def device? : EntityKey → Option DeviceId
  | device id => some id
  | _ => none

def display : EntityKey → String
  | device id => id.display
  | syscall number => s!"sys_{number.toNat}"
  | group index => s!"group_{index.toNat}"

end EntityKey

inductive Origin
  | block
  | syscall
deriving DecidableEq

namespace Origin

def key (o : Origin) (raw : UInt32) : EntityKey :=
  match o with
  | block => .device ⟨raw⟩
  | syscall => .syscall raw

def display : Origin → String
  | block => "block"
  | syscall => "syscall"

end Origin

structure Sample where
  entity : EntityKey
  value : Nat
deriving DecidableEq

end QuantileMonitor
