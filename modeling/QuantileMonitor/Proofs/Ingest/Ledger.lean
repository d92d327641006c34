import QuantileMonitor.Ingest.Pipeline
import QuantileMonitor.Proofs.Ingest.Batching
import QuantileMonitor.Proofs.Ingest.Queue

/-!
# Where the accepted samples are

Every accepted sample is in the queue, in the batch, in the registry or was filtered, and the order of
acceptance is kept on the way. The consumer's steps move samples along and keep the account.
-/

namespace QuantileMonitor.Ingest.Pipeline

variable {γ : Type} [Draws γ]

structure Frame (p p' : Pipeline γ) : Prop where
  filter : p'.filter = p.filter
  cancelled : p'.cancelled = p.cancelled
  abandoned : p'.abandoned = p.abandoned
  capacity : p'.intake.queue.capacity = p.intake.queue.capacity
  received : p'.intake.counters.totals.received = p.intake.counters.totals.received
  dropped : p'.intake.counters.totals.dropped = p.intake.counters.totals.dropped

inductive Move (p : Pipeline γ) : Pipeline γ → Prop
  | close (hphase : p.phase = .waiting) (hcancelled : p.cancelled = true) :
      Move p { p with intake := { p.intake with queue := p.intake.queue.close }, phase := .draining }
  | wake (p' : Pipeline γ) (hphase : p.phase = .waiting) (hcancelled : p.cancelled = false)
      (htake : p.takeOne (.burst (burstSize - 1)) = some p') : Move p p'
  | more (p' : Pipeline γ) (left : Nat) (hphase : p.phase = .burst (left + 1))
      (htake : p.takeOne (.burst left) = some p') : Move p p'
  | rest (left : Nat) (hphase : p.phase = .burst left) : Move p (step?.rest p)
  | drain (p' : Pipeline γ) (hphase : p.phase = .draining)
      (htake : p.takeOne .draining = some p') : Move p p'
  | stop (hphase : p.phase = .draining ∨ p.phase = .waiting ∧ p.abandoned = true)
      (hempty : p.intake.queue.toList = []) : Move p { p.flush with phase := .stopped }

theorem takeOne_none {p : Pipeline γ} {next : Phase} (h : p.takeOne next = none) :
    p.intake.queue.toList = [] := by
  rw [takeOne, Option.map_eq_none_iff, Intake.take?, Option.map_eq_none_iff] at h
  exact Queue.take?_eq_none h

theorem step?_move {p p' : Pipeline γ} (h : p.step? = some p') : Move p p' := by
  unfold step? at h
  split at h
  · rename_i hphase
    split at h
    · rename_i hcancelled
      cases h
      exact .close hphase hcancelled
    · rename_i hcancelled
      split at h
      · rename_i htake
        cases h
        exact .wake _ hphase (by simpa using hcancelled) htake
      · rename_i htake
        split at h
        · rename_i habandoned
          cases h
          exact .stop (.inr ⟨hphase, habandoned⟩) (takeOne_none htake)
        · cases h
  · rename_i hphase
    cases h
    exact .rest 0 hphase
  · rename_i left hphase
    cases htake : p.takeOne (.burst left) with
    | some q =>
      rw [htake] at h
      cases h
      exact .more _ left hphase htake
    | none =>
      rw [htake] at h
      cases h
      exact .rest (left + 1) hphase
  · rename_i hphase
    cases htake : p.takeOne .draining with
    | some q =>
      rw [htake] at h
      cases h
      exact .drain _ hphase htake
    | none =>
      rw [htake] at h
      cases h
      exact .stop (.inl hphase) (takeOne_none htake)
  · cases h

theorem step?_eq_none {p : Pipeline γ} (h : p.step? = none) :
    p.phase = .stopped ∨ p.phase = .waiting ∧ p.cancelled = false ∧ p.abandoned = false := by
  unfold step? at h
  split at h
  · rename_i hphase
    split at h
    · cases h
    · rename_i hcancelled
      split at h
      · cases h
      · split at h
        · cases h
        · rename_i habandoned
          exact .inr ⟨hphase, by simpa using hcancelled, by simpa using habandoned⟩
  · cases h
  · cases h
  · cases h
  · rename_i hphase
    exact .inl hphase

theorem takeOne_some {p p' : Pipeline γ} {next : Phase} (h : p.takeOne next = some p') :
    ∃ s queue, p.intake.queue.take? = some (s, queue) ∧
      p' = { p with intake := { p.intake with queue }, phase := next }.accept s := by
  rw [takeOne, Option.map_eq_some_iff] at h
  obtain ⟨⟨s, intake⟩, htake, rfl⟩ := h
  rw [Intake.take?, Option.map_eq_some_iff] at htake
  obtain ⟨⟨s', queue⟩, htake, heq⟩ := htake
  obtain ⟨rfl, rfl⟩ := Prod.mk.inj heq
  exact ⟨s', queue, htake, rfl⟩

theorem accept_of_allowed {p : Pipeline γ} {s : Sample} (h : p.filter.allows s.entity = true) :
    p.accept s = { p with
      batch := (p.batch.push s p.registry).2.1, registry := (p.batch.push s p.registry).2.2 } := by
  rw [accept, if_pos h]

theorem accept_of_filtered {p : Pipeline γ} {s : Sample} (h : p.filter.allows s.entity = false) :
    p.accept s = { p with intake := { p.intake with counters := p.intake.counters.filter } } := by
  rw [accept, if_neg (by simp [h])]

theorem accept_frame (p : Pipeline γ) (s : Sample) :
    Frame p (p.accept s) ∧ (p.accept s).phase = p.phase ∧
      (p.accept s).intake.queue = p.intake.queue := by
  cases h : p.filter.allows s.entity with
  | true =>
    rw [accept_of_allowed h]
    exact ⟨⟨rfl, rfl, rfl, rfl, rfl, rfl⟩, rfl, rfl⟩
  | false =>
    rw [accept_of_filtered h]
    exact ⟨⟨rfl, rfl, rfl, rfl, rfl, rfl⟩, rfl, rfl⟩

theorem takeOne_frame {p p' : Pipeline γ} {next : Phase} (h : p.takeOne next = some p') :
    Frame p p' ∧ p'.phase = next ∧ p.intake.queue.size = p'.intake.queue.size + 1 ∧
      p'.intake.queue.closed = p.intake.queue.closed := by
  obtain ⟨s, queue, htake, rfl⟩ := takeOne_some h
  obtain ⟨-, hsize, hclosed, hcapacity⟩ := Queue.take?_eq_some htake
  obtain ⟨hframe, hphase, hqueue⟩ :=
    accept_frame { p with intake := { p.intake with queue }, phase := next } s
  refine ⟨⟨hframe.filter, hframe.cancelled, hframe.abandoned, hframe.capacity.trans hcapacity,
    hframe.received, hframe.dropped⟩, hphase, ?_, ?_⟩
  · rw [hqueue, hsize]
  · rw [hqueue, hclosed]

theorem Move.frame {p p' : Pipeline γ} (h : Move p p') : Frame p p' := by
  cases h with
  | close _ _ => exact ⟨rfl, rfl, rfl, rfl, rfl, rfl⟩
  | wake _ _ _ htake => exact (takeOne_frame htake).1
  | more _ _ _ htake => exact (takeOne_frame htake).1
  | rest _ _ =>
    rw [step?.rest]
    split
    · exact ⟨rfl, rfl, rfl, rfl, rfl, rfl⟩
    · exact ⟨rfl, rfl, rfl, rfl, rfl, rfl⟩
  | drain _ _ htake => exact (takeOne_frame htake).1
  | stop _ _ => exact ⟨rfl, rfl, rfl, rfl, rfl, rfl⟩

/-- Of the accepted samples the first were taken from the queue and the others are there still. Of
those taken and not filtered the first were applied to the registry and the others wait. -/
structure Ledger (start : Registry γ) (accepted taken applied : List Sample) (p : Pipeline γ) :
    Prop where
  queued : accepted = taken ++ p.intake.queue.toList
  kept : taken.filter (fun s => p.filter.allows s.entity) = applied ++ p.batch.waiting.toList
  registry : p.registry = start.recordAll applied
  received : p.intake.counters.totals.received = accepted.length
  filtered : p.intake.counters.totals.filtered + applied.length + p.batch.pending = taken.length
  warmup : p.batch.inWarmup = true → p.batch.waiting = #[]

namespace Ledger

variable {start : Registry γ} {accepted taken applied : List Sample} {p : Pipeline γ}

theorem accept {s : Sample} {queue : Queue Sample} (h : Ledger start accepted taken applied p)
    (hqueue : p.intake.queue.toList = s :: queue.toList) (next : Phase) :
    ∃ applied', Ledger start accepted (taken ++ [s]) applied'
      ({ p with intake := { p.intake with queue }, phase := next }.accept s) := by
  have hqueued : accepted = (taken ++ [s]) ++ queue.toList := by
    rw [h.queued, hqueue, List.append_assoc, List.singleton_append]
  cases hallowed : p.filter.allows s.entity with
  | false =>
    rw [accept_of_filtered (p := { p with intake := { p.intake with queue }, phase := next }) hallowed]
    refine ⟨applied, hqueued, ?_, h.registry, h.received, ?_, h.warmup⟩
    · rw [List.filter_append, List.filter_cons_of_neg (by simp [hallowed]), List.filter_nil,
        List.append_nil]
      exact h.kept
    · have hfiltered := h.filtered
      rw [List.length_append, List.length_singleton, ← hfiltered]
      simp only [Counters.filter]
      omega
  | true =>
    obtain ⟨moved, hmoved, hwaiting⟩ := Batch.push_moves p.batch s p.registry
    have hkept : (taken ++ [s]).filter (fun s => p.filter.allows s.entity) =
        applied ++ moved ++ (p.batch.push s p.registry).2.1.waiting.toList := by
      rw [List.filter_append, List.filter_cons_of_pos (by simp [hallowed]), List.filter_nil,
        h.kept, List.append_assoc, List.append_assoc, hwaiting]
    have hfiltered : p.intake.counters.totals.filtered + (applied ++ moved).length +
        (p.batch.push s p.registry).2.1.pending = (taken ++ [s]).length := by
      have hlength := congrArg List.length hwaiting
      have hbefore := h.filtered
      simp only [List.length_append, List.length_singleton, Array.length_toList,
        Batch.pending] at hlength hbefore ⊢
      omega
    rw [accept_of_allowed (p := { p with intake := { p.intake with queue }, phase := next }) hallowed]
    refine ⟨applied ++ moved, hqueued, hkept, ?_, h.received, hfiltered, Batch.push_waiting⟩
    rw [hmoved, h.registry, Registry.recordAll, Registry.recordAll, ← List.foldl_append]
    rfl

theorem takeOne {p' : Pipeline γ} {next : Phase} (h : Ledger start accepted taken applied p)
    (htake : p.takeOne next = some p') :
    ∃ taken' applied', Ledger start accepted taken' applied' p' := by
  obtain ⟨s, queue, htaken, rfl⟩ := takeOne_some htake
  obtain ⟨applied', h'⟩ := h.accept (Queue.take?_eq_some htaken).1 next
  exact ⟨_, applied', h'⟩

theorem flush (h : Ledger start accepted taken applied p) (next : Phase) :
    Ledger start accepted taken (applied ++ p.batch.waiting.toList)
      { p.flush with phase := next } := by
  have hwaiting : (p.batch.flush p.registry).1.waiting = #[] := Batch.flush_waiting _ _
  refine ⟨h.queued, ?_, ?_, h.received, ?_, fun _ => hwaiting⟩
  · show _ = _ ++ (p.batch.flush p.registry).1.waiting.toList
    rw [hwaiting, List.append_nil]
    exact h.kept
  · show (p.batch.flush p.registry).2 = _
    rw [Batch.flush_registry, Batch.settled, h.registry, Registry.recordAll, Registry.recordAll,
      ← List.foldl_append]
    rfl
  · have hfiltered := h.filtered
    show _ + (applied ++ p.batch.waiting.toList).length +
      (p.batch.flush p.registry).1.waiting.size = _
    rw [hwaiting, List.length_append, Array.length_toList, ← hfiltered]
    simp only [Batch.pending, List.size_toArray, List.length_nil]
    exact (Nat.add_assoc _ _ _).symm

theorem move {p' : Pipeline γ} (h : Ledger start accepted taken applied p) (hmove : Move p p') :
    ∃ taken' applied', Ledger start accepted taken' applied' p' := by
  cases hmove with
  | close _ _ => exact ⟨taken, applied, h.queued, h.kept, h.registry, h.received, h.filtered, h.warmup⟩
  | wake _ _ _ htake => exact h.takeOne htake
  | more _ _ _ htake => exact h.takeOne htake
  | rest left _ =>
    rw [step?.rest]
    split
    · exact ⟨taken, applied, h.queued, h.kept, h.registry, h.received, h.filtered, h.warmup⟩
    · exact ⟨taken, _, h.flush .waiting⟩
  | drain _ _ htake => exact h.takeOne htake
  | stop _ _ => exact ⟨taken, _, h.flush .stopped⟩

theorem offer {s : Sample} {queue : Queue Sample} (h : Ledger start accepted taken applied p)
    (hqueue : queue.toList = p.intake.queue.toList ++ [s]) :
    Ledger start (accepted ++ [s]) taken applied
      { p with intake := ⟨queue, p.intake.counters.receive⟩ } := by
  refine ⟨?_, h.kept, h.registry, ?_, h.filtered, h.warmup⟩
  · rw [hqueue, h.queued, List.append_assoc]
  · rw [List.length_append, ← h.received]
    rfl

theorem received_eq (h : Ledger start accepted taken applied p) :
    p.intake.counters.totals.received = p.intake.counters.totals.filtered + applied.length +
      p.batch.pending + p.intake.queue.size := by
  have hfiltered := h.filtered
  rw [h.received, h.queued, List.length_append, Queue.size_eq_length]
  omega

end Ledger

end QuantileMonitor.Ingest.Pipeline
