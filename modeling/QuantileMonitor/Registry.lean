import Std.Data.HashMap
import QuantileMonitor.Entity
import QuantileMonitor.Span
import QuantileMonitor.Window.Basic
import QuantileMonitor.Word

/-! The statistics of every entity seen. Slots are handed out in the order in which entities are
first seen and are never moved; an index finds an entity's slot. -/

namespace QuantileMonitor

open Quantile

structure Registry (γ : Type) where
  strategy : Strategy
  draws : EntityKey → γ × γ
  slots : Array (EntityKey × EntityStats γ)
  index : Std.HashMap EntityKey Nat
  startedAt : Instant
  lastReset : Instant
  resets : Nat

/-- A copy of the statistics at one instant, in the order of the keys. -/
structure Snapshot (γ : Type) where
  takenAt : Instant
  startedAt : Instant
  lastReset : Instant
  resets : Nat
  entities : List (EntityKey × EntityStats γ)

namespace Registry

variable {γ : Type}

def empty (strategy : Strategy) (draws : EntityKey → γ × γ) (now : Instant) : Registry γ :=
  { strategy, draws, slots := #[], index := ∅, startedAt := now, lastReset := now, resets := 0 }

def register (r : Registry γ) (key : EntityKey) : Registry γ :=
  if r.index.contains key then r
  else
    { r with
      slots := r.slots.push (key, .empty r.strategy (r.draws key))
      index := r.index.insert key r.slots.size }

def update (r : Registry γ) (key : EntityKey) (f : EntityStats γ → EntityStats γ) : Registry γ :=
  match r.index[key]? with
  | none => r
  | some i => { r with slots := r.slots.modify i fun (k, stats) => (k, f stats) }

def record [Draws γ] (r : Registry γ) (key : EntityKey) (v : Nat) : Registry γ :=
  (r.register key).update key (·.record v)

def recordAll [Draws γ] (r : Registry γ) (samples : List Sample) : Registry γ :=
  samples.foldl (fun r s => r.record s.entity s.value) r

def resetIntervals (r : Registry γ) (now : Instant) : Registry γ :=
  { r with
    slots := r.slots.map fun (k, stats) => (k, stats.resetInterval)
    lastReset := now
    resets := r.resets + 1 }

def entityCount (r : Registry γ) : Nat := r.slots.size

def totalCount (r : Registry γ) : Nat := r.slots.foldl (fun n (_, s) => n + s.totalCount) 0

def snapshot (r : Registry γ) (now : Instant) : Snapshot γ where
  takenAt := now
  startedAt := r.startedAt
  lastReset := r.lastReset
  resets := r.resets
  entities :=
    (r.slots.toList.map fun (k, s) => (k, s.snapshot)).mergeSort fun a b => a.1.rank ≤ b.1.rank

end Registry

namespace Snapshot

variable {γ : Type}

def totalCount (s : Snapshot γ) : Nat := s.entities.foldl (fun n (_, e) => n + e.totalCount) 0

def get? (s : Snapshot γ) (key : EntityKey) : Option (EntityStats γ) :=
  (s.entities.find? fun (k, _) => k = key).map (·.2)

def memory (s : Snapshot γ) : Nat :=
  s.entities.foldl (fun n (_, e) => n + e.interval.estimator.memory + e.lifetime.estimator.memory) 0

end Snapshot

end QuantileMonitor
