import QuantileMonitor.Device.SysTree

/-! Devices chosen by a text: names, or pairs of numbers with a colon between them, set apart by
commas. -/

namespace QuantileMonitor.Device

open Text

def parts (spec : String) : List (List Char) :=
  ((splitOn ',' spec.toList).map trim).filter (!·.isEmpty)

def selectPart (t : SysTree) (part : List Char) : Except DeviceError Selected :=
  let name := String.ofList part
  match splitOn ':' part with
  | [major, minor] => return ⟨name, ← ofTexts major minor⟩
  | [_] => return ⟨name, ← t.deviceId name⟩
  | _ => .error (.invalidSpec name)

/-- The devices of all parts, in order. No part at all selects nothing. -/
def select (t : SysTree) (spec : String) : Except DeviceError (List Selected) :=
  (parts spec).mapM (selectPart t)

end QuantileMonitor.Device
