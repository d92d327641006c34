import QuantileMonitor.Registry

/-! Samples wait in a batch and are recorded together. During warm-up every sample is recorded at
once; afterwards a batch is flushed as soon as it holds a given number of samples. -/

namespace QuantileMonitor.Ingest

structure Batch where
  waiting : Array Sample
  flushEvery : Nat
  warmupLeft : Nat
  flushes : Nat

namespace Batch

variable {γ : Type}

/-- A flush size of 0 counts as 1. -/
def empty (flushEvery warmup : Nat) : Batch := ⟨#[], max flushEvery 1, warmup, 0⟩

def pending (b : Batch) : Nat := b.waiting.size

def inWarmup (b : Batch) : Bool := 0 < b.warmupLeft

def flush [Draws γ] (b : Batch) (r : Registry γ) : Batch × Registry γ :=
  if b.waiting.isEmpty then (b, r)
  else ({ b with waiting := #[], flushes := b.flushes + 1 }, r.recordAll b.waiting.toList)

def push [Draws γ] (b : Batch) (s : Sample) (r : Registry γ) : Bool × Batch × Registry γ :=
  let b := { b with waiting := b.waiting.push s }
  if 0 < b.warmupLeft then (true, { b with warmupLeft := b.warmupLeft - 1 }.flush r)
  else if b.flushEvery ≤ b.pending then (true, b.flush r)
  else (false, b, r)

end Batch

end QuantileMonitor.Ingest
