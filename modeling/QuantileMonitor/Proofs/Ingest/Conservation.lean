import QuantileMonitor.Proofs.Ingest.Ledger
import QuantileMonitor.Proofs.Registry.Isolation

/-!
# Conservation of samples

Senders offer, multiply and leave while the consumer takes its steps, in any order. Every sample is
accounted for after each of these acts, the order of acceptance survives up to the registry, and a
consumer that was cancelled or left alone stops with nothing pending.
-/

namespace QuantileMonitor.Ingest

open Quantile

variable {γ : Type}

namespace Pipeline

structure Control (p : Pipeline γ) : Prop where
  fits : p.intake.queue.size ≤ p.intake.queue.capacity
  idle : p.phase = .waiting → p.batch.waiting = #[]
  burst : ∀ left, p.phase = .burst left → left < burstSize
  draining : p.phase = .draining → p.intake.queue.closed = true
  stopped : p.phase = .stopped → p.batch.waiting = #[] ∧ p.intake.queue.toList = [] ∧
    (p.intake.queue.closed = true ∨ p.abandoned = true)

def Ended (p : Pipeline γ) : Prop := p.cancelled = true ∨ p.abandoned = true

/-- A bound on the steps that a consumer still takes once it is cancelled or abandoned. As long as
there are senders the queue may fill up again before the cancellation is noticed. -/
def toGo (p : Pipeline γ) : Nat :=
  match p.phase with
  | .waiting => if p.abandoned then 2 * p.intake.queue.size + 2 else 2 * p.intake.queue.capacity + 2
  | .burst left =>
    if p.abandoned then 2 * p.intake.queue.size + 3 else left + 2 * p.intake.queue.capacity + 3
  | .draining => p.intake.queue.size + 1
  | .stopped => 0

theorem toGo_eq_zero {p : Pipeline γ} (h : p.toGo = 0) : p.phase = .stopped := by
  unfold toGo at h
  split at h
  · split at h <;> omega
  · split at h <;> omega
  · omega
  · assumption

theorem toGo_le {p : Pipeline γ} (h : p.Control) :
    p.toGo ≤ burstSize + 2 * p.intake.queue.capacity + 3 := by
  have hfits := h.fits
  unfold toGo
  split
  · split <;> omega
  · rename_i left hphase
    have hleft := h.burst left hphase
    split <;> omega
  · omega
  · omega

theorem Control.not_draining {p : Pipeline γ} (h : p.Control)
    (hopen : p.intake.queue.closed = false) : p.phase ≠ .draining := by
  intro hphase
  rw [h.draining hphase] at hopen
  cases hopen

theorem toGo_offer {p : Pipeline γ} {queue : Queue Sample} (h : p.Control)
    (habandoned : p.abandoned = false) (hopen : p.intake.queue.closed = false)
    (hcapacity : queue.capacity = p.intake.queue.capacity) (c : Counters) :
    toGo { p with intake := ⟨queue, c⟩ } = p.toGo := by
  cases hphase : p.phase with
  | waiting => simp [toGo, hphase, habandoned, hcapacity]
  | burst left => simp [toGo, hphase, habandoned, hcapacity]
  | draining => exact absurd hphase (h.not_draining hopen)
  | stopped => simp [toGo, hphase]

theorem toGo_leave {p : Pipeline γ} (h : p.Control) (habandoned : p.abandoned = false)
    (left : Bool) : toGo { p with abandoned := left } ≤ p.toGo := by
  have hfits := h.fits
  cases hphase : p.phase with
  | waiting =>
    simp only [toGo, hphase, habandoned, if_false, Bool.false_eq_true]
    split <;> omega
  | burst left =>
    simp only [toGo, hphase, habandoned, if_false, Bool.false_eq_true]
    split <;> omega
  | draining => simp [toGo, hphase]
  | stopped => simp [toGo, hphase]

theorem Control.offer {p : Pipeline γ} {queue : Queue Sample} (h : p.Control)
    (habandoned : p.abandoned = false) (hopen : p.intake.queue.closed = false)
    (hfits : queue.size ≤ queue.capacity) (c : Counters) :
    Control { p with intake := ⟨queue, c⟩ } := by
  refine ⟨hfits, h.idle, h.burst, fun hphase => absurd hphase (h.not_draining hopen), ?_⟩
  intro hphase
  obtain ⟨-, -, hclosed | hleft⟩ := h.stopped hphase
  · rw [hopen] at hclosed
    cases hclosed
  · rw [habandoned] at hleft
    cases hleft

variable [Draws γ]

theorem Control.of_takeOne {p p' : Pipeline γ} {next : Phase} (h : p.Control)
    (htake : p.takeOne next = some p')
    (hnext : next = .draining ∧ p.phase = .draining ∨ ∃ left < burstSize, next = .burst left) :
    p'.Control := by
  obtain ⟨hframe, hphase, hsize, hclosed⟩ := takeOne_frame htake
  have hfits : p'.intake.queue.size ≤ p'.intake.queue.capacity := by
    have := h.fits
    rw [hframe.capacity]
    omega
  rcases hnext with ⟨rfl, hdraining⟩ | ⟨left, hleft, rfl⟩
  · refine ⟨hfits, ?_, ?_, fun _ => hclosed.trans (h.draining hdraining), ?_⟩ <;>
      simp [hphase]
  · refine ⟨hfits, ?_, ?_, ?_, ?_⟩ <;> simp [hphase, hleft]

theorem Control.move {p p' : Pipeline γ} (h : p.Control)
    (hwarm : p.batch.inWarmup = true → p.batch.waiting = #[]) (hmove : Move p p') :
    p'.Control := by
  cases hmove with
  | close _ _ => exact ⟨h.fits, by simp, by simp, fun _ => rfl, by simp⟩
  | wake _ _ _ htake => exact h.of_takeOne htake (.inr ⟨_, by decide, rfl⟩)
  | more _ left hphase htake =>
    have hleft := h.burst _ hphase
    exact h.of_takeOne htake (.inr ⟨left, by omega, rfl⟩)
  | rest left _ =>
    rw [step?.rest]
    split
    · rename_i hin
      exact ⟨h.fits, fun _ => hwarm hin, by simp, by simp, by simp⟩
    · exact ⟨h.fits, fun _ => Batch.flush_waiting _ _, by simp, by simp, by simp⟩
  | drain _ hphase htake => exact h.of_takeOne htake (.inl ⟨rfl, hphase⟩)
  | stop hphase hempty =>
    refine ⟨h.fits, by simp, by simp, by simp, fun _ => ⟨Batch.flush_waiting _ _, hempty, ?_⟩⟩
    rcases hphase with hphase | ⟨-, habandoned⟩
    · exact .inl (h.draining hphase)
    · exact .inr habandoned

theorem Move.toGo_lt {p p' : Pipeline γ} (hcontrol : p.Control)
    (hended : p.Ended) (h : Move p p') : p'.toGo < p.toGo := by
  have hfits := hcontrol.fits
  have hframe := h.frame
  cases h with
  | close hphase _ =>
    simp only [toGo, hphase, Queue.close]
    split <;> omega
  | wake _ hphase hcancelled htake =>
    obtain ⟨-, hphase', hsize, -⟩ := takeOne_frame htake
    have habandoned : p.abandoned = true := by simpa [Ended, hcancelled] using hended
    simp only [toGo, hphase, hphase', hframe.abandoned, habandoned, if_true]
    omega
  | more _ left hphase htake =>
    obtain ⟨-, hphase', hsize, -⟩ := takeOne_frame htake
    simp only [toGo, hphase, hphase', hframe.abandoned, hframe.capacity]
    split <;> omega
  | rest left hphase =>
    rw [step?.rest]
    split
    · simp only [toGo, hphase]
      split <;> omega
    · simp only [toGo, hphase, flush]
      split <;> omega
  | drain _ hphase htake =>
    obtain ⟨-, hphase', hsize, -⟩ := takeOne_frame htake
    simp only [toGo, hphase, hphase']
    omega
  | stop hphase _ =>
    rcases hphase with hphase | ⟨hphase, habandoned⟩
    · simp only [toGo, hphase]
      omega
    · simp only [toGo, hphase, habandoned, if_true]
      omega

end Pipeline

/-- The pipeline with the senders that are left, and what they were told so far. -/
structure Traffic (γ : Type) where
  pipeline : Pipeline γ
  senders : Nat
  accepted : List Sample
  answers : List Bool

inductive Request
  | offer (s : Sample)
  | deliver (origin : Origin) (r : Record)
  | clone
  | leave
deriving DecidableEq

inductive Act
  | sender (request : Request)
  | cancel
  | step
deriving DecidableEq

namespace Traffic

def start (p : Pipeline γ) : Traffic γ := ⟨p, 1, [], []⟩

def answer (z : Traffic γ) (s : Sample) (told : Bool × Intake) : Traffic γ :=
  { z with
    pipeline := { z.pipeline with intake := told.2 }
    accepted :=
      if (z.pipeline.intake.queue.offer s).1 = .accepted then z.accepted ++ [s] else z.accepted
    answers := z.answers ++ [told.1] }

def serve (z : Traffic γ) : Request → Traffic γ
  | .offer s => z.answer s (z.pipeline.intake.offer s)
  | .deliver origin r => z.answer (r.sample origin) (z.pipeline.intake.deliver origin r)
  | .clone => { z with senders := z.senders + 1 }
  | .leave =>
    { z with
      senders := z.senders - 1
      pipeline := { z.pipeline with abandoned := decide (z.senders - 1 = 0) } }

def act [Draws γ] (z : Traffic γ) : Act → Traffic γ
  | .sender request => if z.senders = 0 then z else z.serve request
  | .cancel => { z with pipeline := { z.pipeline with cancelled := true } }
  | .step => { z with pipeline := z.pipeline.step?.getD z.pipeline }

def run [Draws γ] (z : Traffic γ) (acts : List Act) : Traffic γ := acts.foldl act z

structure Sound [Draws γ] (first : Pipeline γ) (z : Traffic γ) : Prop where
  filter : z.pipeline.filter = first.filter
  capacity : z.pipeline.intake.queue.capacity = first.intake.queue.capacity
  abandoned : z.pipeline.abandoned = decide (z.senders = 0)
  answered : z.answers.count true =
    z.pipeline.intake.counters.totals.received + z.pipeline.intake.counters.totals.dropped
  control : z.pipeline.Control
  ledger : ∃ taken applied, z.pipeline.Ledger first.registry z.accepted taken applied

variable [Draws γ] {first : Pipeline γ} {z : Traffic γ}

theorem start_sound (capacity : Nat) (filter : Filter) (flushEvery warmup : Nat)
    (r : Registry γ) :
    Sound (Pipeline.start capacity filter (.empty flushEvery warmup) r)
      (start (Pipeline.start capacity filter (.empty flushEvery warmup) r)) := by
  refine ⟨rfl, rfl, rfl, rfl, ⟨Nat.zero_le _, fun _ => rfl, nofun, nofun, nofun⟩, [], [], ?_⟩
  exact ⟨rfl, rfl, rfl, rfl, rfl, fun _ => rfl⟩

theorem answer_sound (h : Sound first z) (hsenders : z.senders ≠ 0) (s : Sample) :
    Sound first (z.answer s (z.pipeline.intake.offer s)) := by
  have habandoned : z.pipeline.abandoned = false := by simp [h.abandoned, hsenders]
  obtain ⟨taken, applied, hledger⟩ := h.ledger
  have hanswered := h.answered
  cases hopen : z.pipeline.intake.queue.closed with
  | true =>
    simp only [answer, Intake.offer, Queue.offer_of_closed hopen]
    refine ⟨h.filter, h.capacity, h.abandoned, ?_, h.control, taken, applied, hledger⟩
    rw [List.count_append, hanswered]
    rfl
  | false =>
    by_cases hfull : z.pipeline.intake.queue.capacity ≤ z.pipeline.intake.queue.size
    · simp only [answer, Intake.offer, Queue.offer_of_full hopen hfull]
      refine ⟨h.filter, h.capacity, h.abandoned, ?_, ?_, taken, applied, ?_⟩
      · rw [List.count_append, hanswered]
        exact Nat.add_assoc _ _ _
      · exact h.control.offer habandoned hopen h.control.fits _
      · exact { hledger with }
    · obtain ⟨queue, hoffer, hlist, hsize, -, hcapacity⟩ :=
        Queue.offer_of_room hopen (by omega) s
      simp only [answer, Intake.offer, hoffer, if_true]
      refine ⟨h.filter, hcapacity.trans h.capacity, h.abandoned, ?_, ?_, taken, applied, ?_⟩
      · rw [List.count_append, hanswered]
        simp only [Counters.receive, List.count_singleton_self]
        omega
      · exact h.control.offer habandoned hopen (by omega) _
      · exact hledger.offer hlist

theorem step_sound (h : Sound first z) : Sound first (z.act .step) := by
  obtain ⟨taken, applied, hledger⟩ := h.ledger
  cases hstep : z.pipeline.step? with
  | none =>
    simp only [act, hstep, Option.getD_none]
    exact h
  | some p =>
    have hmove := Pipeline.step?_move hstep
    have hframe := hmove.frame
    simp only [act, hstep, Option.getD_some]
    refine ⟨hframe.filter.trans h.filter, hframe.capacity.trans h.capacity,
      hframe.abandoned.trans h.abandoned, ?_, h.control.move hledger.warmup hmove,
      hledger.move hmove⟩
    rw [hframe.received, hframe.dropped]
    exact h.answered

theorem serve_sound (h : Sound first z) (hsenders : z.senders ≠ 0) (request : Request) :
    Sound first (z.serve request) := by
  obtain ⟨taken, applied, hledger⟩ := h.ledger
  cases request with
  | offer s => exact answer_sound h hsenders s
  | deliver origin r => exact answer_sound h hsenders (r.sample origin)
  | clone =>
    refine { h with abandoned := ?_ }
    simp [serve, h.abandoned, hsenders]
  | leave =>
    refine ⟨h.filter, h.capacity, rfl, h.answered, ?_, taken, applied, { hledger with }⟩
    refine { h.control with stopped := ?_ }
    intro hphase
    obtain ⟨hwaiting, hempty, hclosed | habandoned⟩ := h.control.stopped hphase
    · exact ⟨hwaiting, hempty, .inl hclosed⟩
    · simp [h.abandoned, hsenders] at habandoned

theorem act_sound (h : Sound first z) (a : Act) : Sound first (z.act a) := by
  cases a with
  | sender request =>
    by_cases hsenders : z.senders = 0
    · simp only [act, hsenders, if_true]
      exact h
    · simp only [act, hsenders, if_false]
      exact serve_sound h hsenders request
  | cancel =>
    obtain ⟨taken, applied, hledger⟩ := h.ledger
    exact ⟨h.filter, h.capacity, h.abandoned, h.answered, { h.control with }, taken, applied,
      { hledger with }⟩
  | step => exact step_sound h

theorem run_sound (h : Sound first z) (acts : List Act) : Sound first (z.run acts) := by
  induction acts generalizing z with
  | nil => exact h
  | cons a acts ih => exact ih (act_sound h a)

theorem serve_toGo_le (h : Sound first z) (hended : z.pipeline.Ended) (hsenders : z.senders ≠ 0)
    (request : Request) :
    (z.serve request).pipeline.Ended ∧ (z.serve request).pipeline.toGo ≤ z.pipeline.toGo := by
  have habandoned : z.pipeline.abandoned = false := by simp [h.abandoned, hsenders]
  have hanswer : ∀ s, (z.answer s (z.pipeline.intake.offer s)).pipeline.toGo =
      z.pipeline.toGo := by
    intro s
    cases hopen : z.pipeline.intake.queue.closed with
    | true => simp only [answer, Intake.offer, Queue.offer_of_closed hopen]
    | false =>
      by_cases hfull : z.pipeline.intake.queue.capacity ≤ z.pipeline.intake.queue.size
      · simp only [answer, Intake.offer, Queue.offer_of_full hopen hfull]
        exact Pipeline.toGo_offer h.control habandoned hopen rfl _
      · obtain ⟨queue, hoffer, -, -, -, hcapacity⟩ := Queue.offer_of_room hopen (by omega) s
        simp only [answer, Intake.offer, hoffer]
        exact Pipeline.toGo_offer h.control habandoned hopen hcapacity _
  cases request with
  | offer s => exact ⟨hended, Nat.le_of_eq (hanswer s)⟩
  | deliver origin r => exact ⟨hended, Nat.le_of_eq (hanswer (r.sample origin))⟩
  | clone => exact ⟨hended, Nat.le_refl _⟩
  | leave =>
    refine ⟨?_, Pipeline.toGo_leave h.control habandoned _⟩
    rcases hended with hcancelled | hleft
    · exact .inl hcancelled
    · rw [habandoned] at hleft
      cases hleft

theorem step_toGo (h : Sound first z) (hended : z.pipeline.Ended) :
    (z.act .step).pipeline.Ended ∧ (z.act .step).pipeline.toGo ≤ z.pipeline.toGo - 1 := by
  cases hstep : z.pipeline.step? with
  | none =>
    simp only [act, hstep, Option.getD_none]
    refine ⟨hended, ?_⟩
    rcases Pipeline.step?_eq_none hstep with hphase | ⟨-, hcancelled, habandoned⟩
    · simp only [Pipeline.toGo, hphase]
      exact Nat.le_refl _
    · simp [Pipeline.Ended, hcancelled, habandoned] at hended
  | some p =>
    have hmove := Pipeline.step?_move hstep
    have hframe := hmove.frame
    have hlt := hmove.toGo_lt h.control hended
    simp only [act, hstep, Option.getD_some]
    refine ⟨?_, by omega⟩
    rw [Pipeline.Ended, hframe.cancelled, hframe.abandoned]
    exact hended

theorem run_toGo (h : Sound first z) (hended : z.pipeline.Ended) (acts : List Act) :
    (z.run acts).pipeline.toGo ≤ z.pipeline.toGo - acts.count .step := by
  induction acts generalizing z with
  | nil => exact Nat.le_refl _
  | cons a acts ih =>
    have hnext : (z.act a).pipeline.Ended ∧
        (z.act a).pipeline.toGo ≤ z.pipeline.toGo - [a].count .step := by
      cases a with
      | sender request =>
        by_cases hsenders : z.senders = 0
        · simp only [act, hsenders, if_true]
          exact ⟨hended, Nat.le_refl _⟩
        · simp only [act, hsenders, if_false]
          exact serve_toGo_le h hended hsenders request
      | cancel => exact ⟨.inl rfl, Nat.le_refl _⟩
      | step => exact step_toGo h hended
    have hrest := ih (act_sound h a) hnext.1
    have hcount : (a :: acts).count .step = [a].count .step + acts.count .step := by
      rw [← List.count_append, List.singleton_append]
    have hbound := hnext.2
    have hrun : z.run (a :: acts) = (z.act a).run acts := rfl
    rw [hrun, hcount]
    omega

end Traffic

variable [Draws γ]

/-- However senders offer, multiply and leave between the steps of the consumer: each offer answered
true was received or dropped, each sample received was filtered, applied, is pending or is queued, and
those applied and pending are the accepted ones that left the queue and pass the filter, in the order
of acceptance. A consumer that waits or has stopped has nothing pending, one that has stopped has
nothing queued either, and one that was cancelled or has no senders left stops. -/
theorem traffic_conserved (strategy : Strategy) (draws : EntityKey → γ × γ) (now : Instant)
    (capacity : Nat) (filter : Filter) (flushEvery warmup : Nat) (acts : List Act) :
    let fresh := Registry.empty strategy draws now
    let z := (Traffic.start
      (Pipeline.start capacity filter (.empty flushEvery warmup) fresh)).run acts
    let p := z.pipeline
    let totals := p.intake.counters.totals
    z.answers.count true = totals.received + totals.dropped ∧
      totals.received =
        totals.filtered + p.registry.totalCount + p.batch.pending + p.intake.queue.size ∧
      (∃ taken applied, z.accepted = taken ++ p.intake.queue.toList ∧
        taken.filter (fun s => filter.allows s.entity) = applied ++ p.batch.waiting.toList ∧
        p.registry = fresh.recordAll applied) ∧
      (p.phase = .waiting → p.batch.pending = 0) ∧
      (p.phase = .stopped → p.batch.pending = 0 ∧ p.intake.queue.size = 0) ∧
      (p.cancelled = true ∨ z.senders = 0 → ∀ later : List Act,
        Pipeline.burstSize + 2 * capacity + 3 ≤ later.count .step →
          (z.run later).pipeline.phase = .stopped) := by
  intro fresh z p totals
  have hsound : z.Sound (Pipeline.start capacity filter (.empty flushEvery warmup) fresh) :=
    Traffic.run_sound (Traffic.start_sound capacity filter flushEvery warmup fresh) acts
  obtain ⟨taken, applied, hledger⟩ := hsound.ledger
  have happlied : p.registry.totalCount = applied.length := by
    rw [hledger.registry]
    exact (Registry.totalCount_recordAll (Registry.empty_indexed strategy draws now) applied).trans
      (Nat.zero_add _)
  have hkept := hledger.kept
  rw [hsound.filter] at hkept
  refine ⟨hsound.answered, ?_, ⟨taken, applied, hledger.queued, hkept, hledger.registry⟩, ?_, ?_, ?_⟩
  · rw [happlied]
    exact hledger.received_eq
  · intro hphase
    exact congrArg Array.size (hsound.control.idle hphase)
  · intro hphase
    obtain ⟨hwaiting, hempty, -⟩ := hsound.control.stopped hphase
    refine ⟨congrArg Array.size hwaiting, ?_⟩
    rw [Queue.size_eq_length, hempty, List.length_nil]
  · intro hend later hsteps
    have hended : p.Ended := hend.imp_right fun hz => by rw [hsound.abandoned, hz]; rfl
    have hbound := Pipeline.toGo_le hsound.control
    have hrun := Traffic.run_toGo hsound hended later
    have hcapacity : z.pipeline.intake.queue.capacity = capacity := hsound.capacity
    have hzero : (z.run later).pipeline.toGo = 0 := by omega
    exact Pipeline.toGo_eq_zero hzero

end QuantileMonitor.Ingest
