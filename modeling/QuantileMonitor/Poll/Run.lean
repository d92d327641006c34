import QuantileMonitor.Ingest.Batch
import QuantileMonitor.Poll.Poller

/-! The two ways to poll: at a steady pace, each sample recorded at once, or without a pause, samples
recorded through a batch. Either is a function of the readings of each iteration, and fails with the first
iteration that fails. -/

namespace QuantileMonitor.Poll

open Ingest

variable {γ : Type}

def tick [Draws γ] (p : Poller) (r : Registry γ) (readings : List Nat) : Option (Poller × Registry γ) := do
  let (samples, p) ← p.poll readings
  return (p, r.recordAll samples)

def runPaced [Draws γ] (p : Poller) (r : Registry γ) (readings : List (List Nat)) :
    Option (Poller × Registry γ) :=
  readings.foldlM (fun (p, r) readings => tick p r readings) (p, r)

def pushAll [Draws γ] (b : Batch) (r : Registry γ) : List Sample → Batch × Registry γ
  | [] => (b, r)
  | s :: rest =>
    let (_, b, r) := b.push s r
    pushAll b r rest

def turn [Draws γ] (p : Poller) (b : Batch) (r : Registry γ) (readings : List Nat) :
    Option (Poller × Batch × Registry γ) := do
  let (samples, p) ← p.poll readings
  return (p, pushAll b r samples)

def runUnpaced [Draws γ] (p : Poller) (b : Batch) (r : Registry γ) (readings : List (List Nat)) :
    Option (Poller × Registry γ) := do
  let (p, b, r) ← readings.foldlM (fun (p, b, r) readings => turn p b r readings) (p, b, r)
  return (p, (b.flush r).2)

def runUntil [Draws γ] (files : Files) (goal : Nat) :
    Nat → Nat → Poller × Batch × Registry γ → Option (Nat × Poller × Registry γ)
  | 0, done, (p, b, r) => some (done, p, (b.flush r).2)
  | fuel + 1, done, (p, b, r) =>
    if goal ≤ r.totalCount then some (done, p, (b.flush r).2)
    else do runUntil files goal fuel (done + 1) (← turn p b r (p.readings files))

end QuantileMonitor.Poll
