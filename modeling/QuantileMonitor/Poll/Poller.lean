import QuantileMonitor.Files
import QuantileMonitor.Gauge
import QuantileMonitor.Ingest.Filter
import QuantileMonitor.Poll.Depth
import QuantileMonitor.Registry
import QuantileMonitor.Word

/-! Polled entities: sources, each with a file that holds its depth, and groups, whose depth is the
sum of their members'. Cells hold the latest depth of the sources, then of the groups. -/

namespace QuantileMonitor.Poll

structure Source where
  key : EntityKey
  node : Node

structure Group where
  key : EntityKey
  members : List Nat

structure Poller where
  sources : List Source
  groups : List Group
  filter : Ingest.Filter
  gauge : Gauge

structure OpenError where
  path : String
  cause : FileError

def OpenError.chain (e : OpenError) : List String := ["opening " ++ e.path, e.cause.message]

def openSource (files : Files) (key : EntityKey) (path : String) : Except OpenError Source :=
  match files.openNode path with
  | .error cause => .error ⟨path, cause⟩
  | .ok node => .ok ⟨key, node⟩

def readSize : Nat := 64

/-- The depth in a file now; a file that cannot be read counts as depth 0. -/
def Source.read (files : Files) (s : Source) : Nat :=
  match files.content s.node with
  | .error _ => 0
  | .ok bytes => depthOfBytes (bytes.extract 0 readSize)

namespace Poller

def ofParts (sources : List Source) (groups : List Group) (filter : Ingest.Filter) : Poller where
  sources := sources
  groups := groups
  filter := filter
  gauge := .ofKeys (sources.map (·.key) ++ groups.map (·.key)).toArray

def keys (p : Poller) : List EntityKey := p.gauge.keys.toList

def entityCount (p : Poller) : Nat := p.sources.length + p.groups.length

def register {γ : Type} (p : Poller) (r : Registry γ) : Registry γ := p.keys.foldl .register r

def readings (p : Poller) (files : Files) : List Nat := p.sources.map (·.read files)

def publish (filter : Ingest.Filter) (key : EntityKey) (cell depth : Nat) (g : Gauge) : List Sample × Gauge :=
  (if filter.allows key then [⟨key, depth⟩] else [], g.store cell depth)

def publishSources (filter : Ingest.Filter) : List (Source × Nat) → Nat → Gauge → List Sample × Gauge
  | [], _, g => ([], g)
  | (s, depth) :: rest, cell, g =>
    let (sample, g) := publish filter s.key cell depth g
    let (samples, g) := publishSources filter rest (cell + 1) g
    (sample ++ samples, g)

def publishGroups (filter : Ingest.Filter) : List Group → Nat → Gauge → Option (List Sample × Gauge)
  | [], _, g => some ([], g)
  | group :: rest, cell, g => do
    let depth ← Word.sum? (group.members.filterMap g.load)
    let (sample, g) := publish filter group.key cell depth g
    let (samples, g) ← publishGroups filter rest (cell + 1) g
    return (sample ++ samples, g)

/-- One iteration: a reading for each source becomes cells and samples, sources before groups. It fails
at a group whose depth is no word. -/
def poll (p : Poller) (readings : List Nat) : Option (List Sample × Poller) := do
  let (first, g) := publishSources p.filter (p.sources.zip readings) 0 p.gauge
  let (second, g) ← publishGroups p.filter p.groups p.sources.length g
  return (first ++ second, { p with gauge := g })

end Poller

end QuantileMonitor.Poll
