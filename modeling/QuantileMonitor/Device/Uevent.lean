import QuantileMonitor.Entity
import QuantileMonitor.Text.Blank
import QuantileMonitor.Text.Numeral
import QuantileMonitor.Word

/-! Device numbers as the kernel writes them: one `KEY=value` a line. -/

namespace QuantileMonitor.Device

open Text

inductive DeviceError
  | invalidSpec (spec : String)
  | invalidNumber (field value : String)
  | notFound (name : String)
  | missingField (name field : String)
  | list (path cause : String)
deriving DecidableEq

namespace DeviceError

def message : DeviceError → String
  | invalidSpec spec => "invalid device: " ++ spec
  | invalidNumber field value => "invalid " ++ field ++ ": " ++ value
  | notFound name => "device not found: " ++ name
  | missingField name field => "device " ++ name ++ ": uevent has no " ++ field
  | list path cause => "listing block devices under " ++ path ++ ": " ++ cause

def chain (e : DeviceError) : List String :=
  match e with
  | list _ cause => [e.message, cause]
  | _ => [e.message]

end DeviceError

/-- The value of the first line that begins with the key and an equals sign, without blanks around it. -/
def field? (content : List Char) (key : String) : Option (List Char) :=
  (lines content).findSome? fun line => (dropStart? (key.toList ++ ['=']) line).map trim

def number (field : String) (value : List Char) : Except DeviceError UInt32 :=
  match unsigned? Word.halfBound (trim value) with
  | none => .error (.invalidNumber field (String.ofList value))
  | some n => .ok n.toUInt32

def ofTexts (major minor : List Char) : Except DeviceError DeviceId := do
  return .ofNumbers (← number "major" major) (← number "minor" minor)

def required (name : String) (content : List Char) (key : String) : Except DeviceError (List Char) :=
  match field? content key with
  | none => .error (.missingField name key)
  | some value => .ok value

def ofUevent (name : String) (content : List Char) : Except DeviceError DeviceId := do
  let major ← required name content "MAJOR"
  let minor ← required name content "MINOR"
  ofTexts major minor

end QuantileMonitor.Device
