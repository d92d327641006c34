import QuantileMonitor.Files
import QuantileMonitor.Settings.Basic
import QuantileMonitor.Word
import QuantileMonitor.Yaml.Value

/-! Settings written in a file: one mapping from names to values. What it does not name has its default,
and names that mean nothing here are left alone. -/

namespace QuantileMonitor

inductive DocumentError
  | malformed (flaw : Yaml.Flaw)
  | notMapping
  | badName
  | repeated (field : String)
  | badValue (field : String)

def DocumentError.message : DocumentError → String
  | malformed flaw => flaw.message
  | notMapping => "expected a mapping"
  | badName => "expected a field name"
  | repeated field => "duplicate field " ++ field
  | badValue field => field ++ ": invalid value"

inductive LoadError
  | unreadable (path : String) (cause : FileError)
  | unusable (path : String) (cause : DocumentError)

def LoadError.chain : LoadError → List String
  | unreadable path cause => ["reading config file " ++ path, cause.message]
  | unusable path cause => ["parsing config file " ++ path, cause.message]

structure Field (α : Type) where
  name : String
  set : α → Yaml.Document → Yaml.Node → Yaml.Reading α

abbrev Parsing (α : Type) := StateT Nat (Except DocumentError) α

def orThrow {α : Type} (e : DocumentError) (read : Yaml.Reading α) : Parsing α := fun followed =>
  match read followed with
  | none => .error e
  | some r => .ok r

namespace Field

def ofRead {α β : Type} (name : String) (read : Yaml.Document → Yaml.Node → Yaml.Reading β)
    (put : α → β → α) : Field α :=
  ⟨name, fun a d n => put a <$> read d n⟩

def take {α : Type} (fields : List (Field α)) (d : Yaml.Document) (seen : List String) (a : α)
    (entry : Yaml.Node × Yaml.Node) : Parsing (List String × α) := do
  let name ← orThrow .badName (d.text entry.1)
  match fields.find? (·.name = name) with
  | none => return (seen, a)
  | some field =>
    if seen.contains name then throw (.repeated name)
    return (name :: seen, ← orThrow (.badValue name) (field.set a d entry.2))

def takeAll {α : Type} (fields : List (Field α)) (a : α) (d : Yaml.Document) (n : Yaml.Node) :
    Parsing (List String × α) := do
  let entries ← orThrow .notMapping (d.entries n)
  entries.foldlM (fun (seen, a) entry => take fields d seen a entry) ([], a)

end Field

open Yaml

def texts (d : Document) : Yaml.Node → Reading (List String) := d.list d.text

def optionalOf {α : Type} (read : Document → Yaml.Node → Reading α) (d : Document) :
    Yaml.Node → Reading (Option α) :=
  d.optional (read d)

namespace DeviceGroup

def fields : List (Field DeviceGroup) :=
  [.ofRead "name" Document.text fun g name => { g with name },
    .ofRead "members" texts fun g members => { g with members }]

def ofNode (d : Document) (n : Yaml.Node) : Reading DeviceGroup := fun followed =>
  match Field.takeAll fields ⟨"", []⟩ d n followed with
  | .ok ((seen, g), followed) => if fields.all fun f => seen.contains f.name then some (g, followed) else none
  | .error _ => none

end DeviceGroup

namespace Settings

def fields : List (Field Settings) :=
  [.ofRead "log_level" Document.text fun s logLevel => { s with logLevel },
    .ofRead "mode" (Document.choice Mode.ofName?) fun s mode => { s with mode },
    .ofRead "devices" Document.text fun s devices => { s with devices },
    .ofRead "syscalls" texts fun s syscalls => { s with syscalls },
    .ofRead "process_name" (optionalOf Document.text) fun s processName => { s with processName },
    .ofRead "interval" Document.duration fun s interval => { s with interval },
    .ofRead "frame_interval" (optionalOf Document.duration) fun s framePeriod => { s with framePeriod },
    .ofRead "batch" Document.bool fun s batch => { s with batch },
    .ofRead "strategy" (optionalOf (Document.choice Method.ofName?)) fun s method => { s with method },
    .ofRead "alpha" Document.float fun s accuracy => { s with accuracy },
    .ofRead "reservoir_size" (Document.nat Word.bound) fun s reservoirSize => { s with reservoirSize },
    .ofRead "histogram_max" (Document.nat Word.bound) fun s histogramMax => { s with histogramMax },
    .ofRead "poll_interval" (optionalOf Document.duration) fun s pollPeriod => { s with pollPeriod },
    .ofRead "flush_every" (Document.nat Word.bound) fun s flushEvery => { s with flushEvery },
    .ofRead "percentiles" (optionalOf fun d => d.list d.float) fun s percentiles => { s with percentiles },
    .ofRead "show_top" Document.bool fun s showTop => { s with showTop },
    .ofRead "sysfs_root" Document.text fun s sysRoot => { s with sysRoot },
    .ofRead "event_queue_capacity" (Document.nat Word.bound) fun s queueCapacity => { s with queueCapacity },
    .ofRead "ring_buffer_size" (Document.nat Word.halfBound) fun s ringBufferSize => { s with ringBufferSize },
    .ofRead "device_prefixes" texts fun s devicePrefixes => { s with devicePrefixes },
    .ofRead "groups" (fun d => d.list (DeviceGroup.ofNode d)) fun s groups => { s with groups },
    .ofRead "queue_bar_width" (Document.nat Word.bound) fun s barWidth => { s with barWidth }]

def ofText (text : String) : Except DocumentError Settings :=
  match Document.ofText text with
  | .error flaw => .error (.malformed flaw)
  | .ok d => ((Field.takeAll fields {} d d.root).run' 0).map (·.2)

def load (files : Files) (path : String) : Except LoadError Settings :=
  match files.readText path with
  | .error cause => .error (.unreadable path cause)
  | .ok text =>
    match ofText text with
    | .error cause => .error (.unusable path cause)
    | .ok s => .ok s

end Settings

end QuantileMonitor
