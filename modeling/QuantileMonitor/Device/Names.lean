import Std.Data.HashMap
import QuantileMonitor.Device.SysTree
import QuantileMonitor.Device.Syscall

/-! Display names. A name is looked up once and then kept, also when the look-up failed and the key
itself had to serve. -/

namespace QuantileMonitor.Device

structure Names where
  groups : List String
  known : Std.HashMap EntityKey String

namespace Names

def ofGroups (groups : List String) : Names := ⟨groups, ∅⟩

def insert (n : Names) (key : EntityKey) (name : String) : Names :=
  { n with known := n.known.insert key name }

def lookUp (n : Names) (t : SysTree) (key : EntityKey) : Option String :=
  match key with
  | .device id => t.deviceName id
  | .syscall number => Syscall.name? number
  | .group index => n.groups[index.toNat]?

def name (n : Names) (t : SysTree) (key : EntityKey) : String × Names :=
  match n.known[key]? with
  | some name => (name, n)
  | none =>
    let name := (n.lookUp t key).getD key.display
    (name, n.insert key name)

def all (n : Names) (t : SysTree) : List EntityKey → List String × Names
  | [] => ([], n)
  | key :: rest =>
    let (name, n) := n.name t key
    let (names, n) := n.all t rest
    (name :: names, n)

end Names

end QuantileMonitor.Device
