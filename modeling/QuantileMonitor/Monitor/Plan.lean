import QuantileMonitor.Monitor.Targets

/-! What is polled in queue mode: a source for each device, a group for each configured one, and the
depth that fills a group's bar. Names that were learned on the way are kept even when planning fails. -/

namespace QuantileMonitor.Monitor

open Device Poll

structure Plan where
  poller : Poller
  fullScale : List (EntityKey × Nat)

def openSources (tree : SysTree) : List Selected → Names → Except StartError (List Source) × Names
  | [], n => (.ok [], n)
  | d :: rest, n =>
    let (name, n) := (seedName n d).name tree (.device d.id)
    match openSource tree.files (.device d.id) (tree.inflightPath name) with
    | .error cause => (.error (.depth name cause), n)
    | .ok source =>
      let (sources, n) := openSources tree rest n
      (sources.map (source :: ·), n)

def member (names : List String) (group name : String) : Except StartError Nat :=
  match names.idxOf? name with
  | some i => .ok i
  | none => .error (.notPolled group name)

def openGroup (names : List String) (index : Nat) (g : DeviceGroup) : Except StartError Poll.Group := do
  let members ← g.members.mapM (member names g.name)
  if index < 65536 then return ⟨.group index.toUInt16, members⟩ else throw (.tooManyGroups index)

def openGroups (names : List String) : Nat → List DeviceGroup → Except StartError (List Poll.Group)
  | _, [] => .ok []
  | index, g :: rest => do
    let group ← openGroup names index g
    return group :: (← openGroups names (index + 1) rest)

def fullScale (barWidth : Nat) (groups : List Poll.Group) : List (EntityKey × Nat) :=
  groups.map fun g => (g.key, barWidth * g.members.length)

def plan (s : Settings) (tree : SysTree) (n : Names) : Except StartError Plan × Names :=
  match pollTargets s tree with
  | .error e => (.error e, n)
  | .ok [] => (.error (.noDevices tree.root), n)
  | .ok selected =>
    match openSources tree selected n with
    | (.error e, n) => (.error e, n)
    | (.ok sources, n) =>
      let (names, n) := n.all tree (selected.map fun d => .device d.id)
      match openGroups names 0 s.groups with
      | .error e => (.error e, n)
      | .ok groups => (.ok ⟨.ofParts sources groups .all, fullScale s.barWidth groups⟩, n)

end QuantileMonitor.Monitor
