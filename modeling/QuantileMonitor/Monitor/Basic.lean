import QuantileMonitor.Frame.Screen
import QuantileMonitor.Ingest.Batch
import QuantileMonitor.Monitor.Plan

/-! A running monitor of queue depths. Polling, interval resets and frames go on side by side: each
event is one step of one of them, and any order of events that can happen is a run. To stop, polling
and resets end first, polling with a flush of its batch, and then a last frame is drawn. -/

namespace QuantileMonitor.Monitor

open Device Ingest Poll

inductive Stage
  | running
  | ending (polling resetting : Bool)
  | closing
  | stopped
deriving DecidableEq

namespace Stage

def mayReset : Stage → Bool
  | running => true
  | ending _ resetting => resetting
  | _ => false

def mayDraw : Stage → Bool
  | running | ending _ _ => true
  | _ => false

end Stage

structure Shot where
  now : Instant
  files : Files
  clock : String
  ending : Frame.Ending

inductive Event
  | read (depths : List Nat)
  | pass
  | reset (now : Instant)
  | draw (shot : Shot)
  | cancel
  | endPolling
  | endResets
  | endFrames
  | drawLast (shot : Shot)

end Monitor

open Device Ingest Poll Monitor

structure Monitor (γ : Type) where
  root : String
  poller : Poller
  batch : Option Batch
  passing : List Sample
  iterations : Nat
  registry : Registry γ
  counters : Counters
  screen : Frame.Screen
  output : Frame.Output
  stage : Stage

namespace Monitor

variable {γ : Type}

def passOn [Draws γ] (m : Monitor γ) (s : Sample) (rest : List Sample) : Monitor γ :=
  let ⟨root, poller, batch, _, iterations, registry, counters, screen, output, stage⟩ := m
  match batch with
  | none =>
    ⟨root, poller, none, rest, iterations, registry.record s.entity s.value, counters, screen, output, stage⟩
  | some b =>
    let (_, b, registry) := b.push s registry
    ⟨root, poller, some b, rest, iterations, registry, counters, screen, output, stage⟩

def flush [Draws γ] (m : Monitor γ) : Monitor γ :=
  match m.batch with
  | none => m
  | some b =>
    let (b, registry) := b.flush m.registry
    { m with batch := some b, registry }

def drawFrame (m : Monitor γ) (shot : Shot) : Monitor γ :=
  let (frame, screen, counters) :=
    m.screen.render ⟨m.root, shot.files⟩ shot.clock (some m.poller.gauge) (m.registry.snapshot shot.now)
      m.counters
  { m with screen, counters, output := m.output.write shot.ending frame }

/-- Reads begin only while the monitor runs, and polling ends only between two iterations. No run has an
iteration that fails. -/
def step? [Draws γ] (m : Monitor γ) : Event → Option (Monitor γ)
  | .read depths =>
    if m.stage = .running ∧ m.passing = [] then do
      let (samples, poller) ← m.poller.poll depths
      return { m with poller, passing := samples, iterations := m.iterations + 1 }
    else none
  | .pass =>
    match m.passing with
    | [] => none
    | s :: rest => some (m.passOn s rest)
  | .reset now =>
    if m.stage.mayReset then some { m with registry := m.registry.resetIntervals now } else none
  | .draw shot => if m.stage.mayDraw then some (m.drawFrame shot) else none
  | .cancel => if m.stage = .running then some { m with stage := .ending true true } else none
  | .endPolling =>
    match m.stage, m.passing with
    | .ending true resetting, [] => some { m.flush with stage := .ending false resetting }
    | _, _ => none
  | .endResets =>
    match m.stage with
    | .ending polling true => some { m with stage := .ending polling false }
    | _ => none
  | .endFrames => if m.stage = .ending false false then some { m with stage := .closing } else none
  | .drawLast shot => if m.stage = .closing then some { m.drawFrame shot with stage := .stopped } else none

def run? [Draws γ] (m : Monitor γ) (events : List Event) : Option (Monitor γ) := events.foldlM step? m

def stopEvents (shot : Shot) : List Event := [.cancel, .endPolling, .endResets, .endFrames, .drawLast shot]

/-- A whole iteration: a reading of each source, and all its samples. -/
def iterationEvents (m : Monitor γ) (depths : List Nat) : List Event :=
  .read depths ::
    match m.poller.poll depths with
    | none => []
    | some (samples, _) => samples.map fun _ => .pass

end Monitor

end QuantileMonitor
