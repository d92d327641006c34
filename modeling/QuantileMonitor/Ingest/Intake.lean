import QuantileMonitor.Ingest.Counters
import QuantileMonitor.Ingest.Queue
import QuantileMonitor.Ingest.Record

/-! Where samples enter: a bounded queue, and counters of what was received and what was lost.
Offering never waits; when the queue is full the new sample is lost. -/

namespace QuantileMonitor.Ingest

structure Intake where
  queue : Queue Sample
  counters : Counters

namespace Intake

def empty (capacity : Nat) : Intake := ⟨.empty capacity, .zero⟩

/-- The answer is false once nobody takes from the queue any more. -/
def offer (i : Intake) (s : Sample) : Bool × Intake :=
  match i.queue.offer s with
  | (.accepted, queue) => (true, ⟨queue, i.counters.receive⟩)
  | (.full, queue) => (true, ⟨queue, i.counters.drop⟩)
  | (.closed, queue) => (false, { i with queue })

def deliver (i : Intake) (origin : Origin) (r : Record) : Bool × Intake := i.offer (r.sample origin)

def take? (i : Intake) : Option (Sample × Intake) :=
  i.queue.take?.map fun (s, queue) => (s, { i with queue })

end Intake

end QuantileMonitor.Ingest
