import QuantileMonitor.Ingest.Batch
import QuantileMonitor.Ingest.Filter
import QuantileMonitor.Ingest.Intake

/-! The consumer of queued samples, as a machine that takes one sample a step. It wakes for a sample,
takes up to 255 more without waiting, and then records what its batch holds, unless the batch still
warms up. Cancelled, it takes what is queued and stops. -/

namespace QuantileMonitor.Ingest

inductive Phase
  | waiting
  | burst (left : Nat)
  | draining
  | stopped
deriving DecidableEq

structure Pipeline (γ : Type) where
  intake : Intake
  filter : Filter
  batch : Batch
  registry : Registry γ
  phase : Phase
  cancelled : Bool
  abandoned : Bool

namespace Pipeline

variable {γ : Type}

def burstSize : Nat := 256

def start (capacity : Nat) (filter : Filter) (batch : Batch) (registry : Registry γ) : Pipeline γ :=
  { intake := .empty capacity, filter, batch, registry, phase := .waiting
    cancelled := false, abandoned := false }

def accept [Draws γ] (p : Pipeline γ) (s : Sample) : Pipeline γ :=
  if p.filter.allows s.entity then
    let ⟨intake, filter, batch, registry, phase, cancelled, abandoned⟩ := p
    let (_, batch, registry) := batch.push s registry
    ⟨intake, filter, batch, registry, phase, cancelled, abandoned⟩
  else { p with intake := { p.intake with counters := p.intake.counters.filter } }

def flush [Draws γ] (p : Pipeline γ) : Pipeline γ :=
  let ⟨intake, filter, batch, registry, phase, cancelled, abandoned⟩ := p
  let (batch, registry) := batch.flush registry
  ⟨intake, filter, batch, registry, phase, cancelled, abandoned⟩

def takeOne [Draws γ] (p : Pipeline γ) (next : Phase) : Option (Pipeline γ) :=
  p.intake.take?.map fun (s, intake) => { p with intake, phase := next }.accept s

/-- One step, if there is one to do. Cancellation comes before samples. -/
def step? [Draws γ] (p : Pipeline γ) : Option (Pipeline γ) :=
  match p.phase with
  | .waiting =>
    if p.cancelled then
      some { p with intake := { p.intake with queue := p.intake.queue.close }, phase := .draining }
    else
      match p.takeOne (.burst (burstSize - 1)) with
      | some p => some p
      | none => if p.abandoned then some { p.flush with phase := .stopped } else none
  | .burst 0 => some (rest p)
  | .burst (left + 1) => some ((p.takeOne (.burst left)).getD (rest p))
  | .draining => some ((p.takeOne .draining).getD { p.flush with phase := .stopped })
  | .stopped => none
where
  rest (p : Pipeline γ) : Pipeline γ :=
    if p.batch.inWarmup then { p with phase := .waiting } else { p.flush with phase := .waiting }

def run [Draws γ] : Nat → Pipeline γ → Pipeline γ
  | 0, p => p
  | n + 1, p =>
    match p.step? with
    | none => p
    | some p => run n p

/-- Everything that can be done before another sample is offered. Each queued sample takes one step
and ends at most one burst; four steps more wake up, close and stop. -/
def settle [Draws γ] (p : Pipeline γ) : Pipeline γ := p.run (2 * p.intake.queue.size + 4)

def isStopped (p : Pipeline γ) : Bool := p.phase = .stopped

end Pipeline

end QuantileMonitor.Ingest
