import Mathlib.Data.List.Induction
import QuantileMonitor.Ingest.Batch
import QuantileMonitor.Proofs.Registry.Lifetimes

/-!
# Batched recording

A batch and a registry stand for the registry that a flush would leave. Flushing does not change what
they stand for and a push records one more sample there, during warm-up and after it, so a run
through a batch ends where the run ends that records every sample at once.
-/

namespace QuantileMonitor.Ingest

open Quantile

variable {γ : Type} [Draws γ]

namespace Batch

def settled (b : Batch) (r : Registry γ) : Registry γ := r.recordAll b.waiting.toList

theorem flush_of_empty {b : Batch} (h : b.waiting = #[]) (r : Registry γ) : b.flush r = (b, r) := by
  rw [flush, if_pos (Array.isEmpty_iff.mpr h)]

def emptied (b : Batch) : Batch := { b with waiting := #[], flushes := b.flushes + 1 }

theorem flush_of_ne_empty {b : Batch} (h : b.waiting ≠ #[]) (r : Registry γ) :
    b.flush r = (b.emptied, b.settled r) := by
  rw [flush, if_neg (by simpa using h)]
  rfl

theorem flush_waiting (b : Batch) (r : Registry γ) : (b.flush r).1.waiting = #[] := by
  by_cases h : b.waiting = #[]
  · rw [flush_of_empty h]
    exact h
  · rw [flush_of_ne_empty h]
    rfl

theorem flush_registry (b : Batch) (r : Registry γ) : (b.flush r).2 = b.settled r := by
  by_cases h : b.waiting = #[]
  · rw [flush_of_empty h, settled, h]
    rfl
  · rw [flush_of_ne_empty h]

theorem flush_settled (b : Batch) (r : Registry γ) :
    (b.flush r).1.settled (b.flush r).2 = b.settled r := by
  rw [settled, flush_waiting, flush_registry]
  rfl

def holding (b : Batch) (s : Sample) : Batch := { b with waiting := b.waiting.push s }

theorem holding_pending (b : Batch) (s : Sample) : (b.holding s).pending = b.pending + 1 :=
  Array.size_push s

theorem holding_ne_empty (b : Batch) (s : Sample) : (b.holding s).waiting ≠ #[] := by
  simp [holding]

theorem holding_settled (b : Batch) (s : Sample) (r : Registry γ) :
    (b.holding s).settled r = (b.settled r).record s.entity s.value := by
  simp only [settled, holding, Array.toList_push, Registry.recordAll, List.foldl_append,
    List.foldl_cons, List.foldl_nil]

def Due (b : Batch) : Prop := 0 < b.warmupLeft ∨ b.flushEvery ≤ b.pending + 1

instance (b : Batch) : Decidable b.Due := inferInstanceAs (Decidable (_ ∨ _))

theorem push_eq (b : Batch) (s : Sample) (r : Registry γ) :
    b.push s r =
      if 0 < b.warmupLeft then
        (true, { b.holding s with warmupLeft := b.warmupLeft - 1 }.flush r)
      else if b.flushEvery ≤ b.pending + 1 then (true, (b.holding s).flush r)
      else (false, b.holding s, r) := by
  rw [← b.holding_pending s]
  rfl

theorem push_of_due {b : Batch} (h : b.Due) (s : Sample) (r : Registry γ) :
    b.push s r = (true, { b.emptied with warmupLeft := b.warmupLeft - 1 },
      (b.holding s).settled r) := by
  by_cases hw : 0 < b.warmupLeft
  · rw [push_eq, if_pos hw, flush_of_ne_empty]
    · rfl
    · exact b.holding_ne_empty s
  · have hleft : b.warmupLeft - 1 = b.warmupLeft := by omega
    rw [push_eq, if_neg hw, if_pos (h.resolve_left hw), flush_of_ne_empty (b.holding_ne_empty s),
      hleft]
    rfl

theorem push_of_not_due {b : Batch} (h : ¬ b.Due) (s : Sample) (r : Registry γ) :
    b.push s r = (false, b.holding s, r) := by
  obtain ⟨hw, hroom⟩ := not_or.mp h
  rw [push_eq, if_neg hw, if_neg hroom]

theorem push_settled (b : Batch) (s : Sample) (r : Registry γ) :
    (b.push s r).2.1.settled (b.push s r).2.2 = (b.settled r).record s.entity s.value := by
  rw [← holding_settled]
  by_cases h : b.Due
  · rw [push_of_due h]
    rfl
  · rw [push_of_not_due h]

theorem push_moves (b : Batch) (s : Sample) (r : Registry γ) :
    ∃ moved, (b.push s r).2.2 = r.recordAll moved ∧
      moved ++ (b.push s r).2.1.waiting.toList = b.waiting.toList ++ [s] := by
  by_cases h : b.Due
  · rw [push_of_due h]
    exact ⟨(b.holding s).waiting.toList, rfl, by simp [emptied, holding]⟩
  · rw [push_of_not_due h]
    exact ⟨[], rfl, by simp [holding]⟩

theorem push_waiting {b : Batch} {s : Sample} {r : Registry γ}
    (h : (b.push s r).2.1.inWarmup = true) : (b.push s r).2.1.waiting = #[] := by
  by_cases hdue : b.Due
  · rw [push_of_due hdue]
    rfl
  · obtain ⟨hw, -⟩ := not_or.mp hdue
    rw [push_of_not_due hdue] at h
    exact absurd (of_decide_eq_true h) hw

end Batch

inductive Feed
  | push (s : Sample)
  | flush
  | reset (now : Instant)

def batched : Batch × Registry γ → Feed → Batch × Registry γ
  | (b, r), .push s => (b.push s r).2
  | (b, r), .flush => b.flush r
  | (b, r), .reset now => (b, r.resetIntervals now)

def direct (r : Registry γ) : Feed → Registry γ
  | .push s => r.record s.entity s.value
  | .flush => r
  | .reset now => r.resetIntervals now

/-- No reset falls while samples wait. -/
def ResetsIdle (start : Batch × Registry γ) (feed : List Feed) : Prop :=
  ∀ before now after, feed = before ++ .reset now :: after →
    (before.foldl batched start).1.pending = 0

theorem ResetsIdle.of_concat {start : Batch × Registry γ} {feed : List Feed} {f : Feed}
    (h : ResetsIdle start (feed ++ [f])) : ResetsIdle start feed := by
  intro before now after heq
  exact h before now (after ++ [f]) (by simp [heq])

theorem batched_sameLifetimes {z : Batch × Registry γ} {d : Registry γ}
    (h : (z.1.settled z.2).SameLifetimes d) (f : Feed) :
    ((batched z f).1.settled (batched z f).2).SameLifetimes (direct d f) := by
  obtain ⟨b, r⟩ := z
  cases f with
  | push s =>
    have hpush := Batch.push_settled b s r
    simp only [batched, direct]
    rw [hpush]
    exact Registry.record_sameLifetimes h s.entity s.value
  | flush =>
    have hflush := Batch.flush_settled b r
    simp only [batched, direct]
    rw [hflush]
    exact h
  | reset now =>
    have hlate := Registry.resetIntervals_sameLifetimes d now
    have hearly := Registry.recordAll_sameLifetimes
      (Registry.resetIntervals_sameLifetimes r now) b.waiting.toList
    exact (hearly.trans h).trans hlate.symm

theorem batched_settled {z : Batch × Registry γ} {d : Registry γ} (h : z.1.settled z.2 = d)
    (f : Feed) (hidle : ∀ now, f = .reset now → z.1.pending = 0) :
    (batched z f).1.settled (batched z f).2 = direct d f := by
  obtain ⟨b, r⟩ := z
  cases f with
  | push s =>
    have hpush := Batch.push_settled b s r
    rw [h] at hpush
    exact hpush
  | flush =>
    have hflush := Batch.flush_settled b r
    rw [h] at hflush
    exact hflush
  | reset now =>
    have hempty : b.waiting = #[] := Array.eq_empty_of_size_eq_zero (hidle now rfl)
    simp only [Batch.settled, hempty] at h
    simp only [batched, direct, Batch.settled, hempty, ← h]
    rfl

theorem run_sameLifetimes (z : Batch × Registry γ) (feed : List Feed) {d : Registry γ}
    (h : (z.1.settled z.2).SameLifetimes d) :
    ((feed.foldl batched z).1.settled (feed.foldl batched z).2).SameLifetimes
      (feed.foldl direct d) := by
  induction feed generalizing z d with
  | nil => exact h
  | cons f feed ih => exact ih (batched z f) (batched_sameLifetimes h f)

theorem run_settled (z : Batch × Registry γ) (feed : List Feed) (hidle : ResetsIdle z feed) :
    (feed.foldl batched z).1.settled (feed.foldl batched z).2 =
      feed.foldl direct (z.1.settled z.2) := by
  induction feed using List.reverseRecOn with
  | nil => rfl
  | append_singleton feed f ih =>
    rw [List.foldl_append, List.foldl_append]
    refine batched_settled (ih hidle.of_concat) f ?_
    rintro now rfl
    exact hidle feed now [] rfl

/-- Recording through a batch ends in the same registry as recording at once: in the same lifetime
windows always, and in the same interval windows too if no reset falls while samples wait. -/
theorem batched_agrees_with_direct (strategy : Strategy) (draws : EntityKey → γ × γ)
    (start : Instant) (flushEvery warmup : Nat) (feed : List Feed) :
    let fresh := Registry.empty strategy draws start
    let r := ((feed ++ [Feed.flush]).foldl batched (Batch.empty flushEvery warmup, fresh)).2
    let d := (feed ++ [Feed.flush]).foldl direct fresh
    r.keys = d.keys ∧ r.totalCount = d.totalCount ∧ r.lifetimes = d.lifetimes ∧
      (ResetsIdle (Batch.empty flushEvery warmup, fresh) (feed ++ [Feed.flush]) → r = d) := by
  intro fresh r d
  have hr : r = (feed.foldl batched (Batch.empty flushEvery warmup, fresh)).1.settled
      (feed.foldl batched (Batch.empty flushEvery warmup, fresh)).2 := by
    simp only [r, List.foldl_append, List.foldl_cons, List.foldl_nil, batched]
    exact Batch.flush_registry _ _
  have hd : d = feed.foldl direct fresh := by
    simp only [d, List.foldl_append, List.foldl_cons, List.foldl_nil, direct]
  have hstart : (Batch.empty flushEvery warmup).settled fresh = fresh := rfl
  have hsame : r.SameLifetimes d := by
    rw [hr, hd]
    exact run_sameLifetimes _ feed (hstart ▸ Registry.SameLifetimes.refl fresh)
  refine ⟨hsame.keys, hsame.totalCount, hsame.lifetimes, ?_⟩
  intro hidle
  rw [hr, hd, run_settled _ feed hidle.of_concat, hstart]

end QuantileMonitor.Ingest
