import QuantileMonitor.Proofs.Ingest.Conservation
import QuantileMonitor.Proofs.Ingest.Correlation
import QuantileMonitor.Proofs.Ingest.Wire
import QuantileMonitor.Proofs.Window.Busy

/-!
# Completed operations are never idle

Samples of completions and of decoded records have at least one microsecond. Nothing on the way to the
registry makes up a sample or changes one, so no window of an entity that is only traced has taken a zero,
whatever the filter and the batching are and whenever the intervals are reset.
-/

namespace QuantileMonitor.Ingest

open Quantile

variable {γ : Type}

section Way

variable [Draws γ]

def ToldOnly (P : Sample → Prop) (first r : Registry γ) : Prop :=
  ∃ calls, r = first.run calls ∧ ∀ s ∈ Registry.recorded calls, P s

namespace ToldOnly

variable {P Q : Sample → Prop} {first r : Registry γ}

theorem start (P : Sample → Prop) (first : Registry γ) : ToldOnly P first first := ⟨[], rfl, nofun⟩

theorem imp (h : ToldOnly P first r) (hPQ : ∀ s, P s → Q s) : ToldOnly Q first r := by
  obtain ⟨calls, hcalls, hP⟩ := h
  exact ⟨calls, hcalls, fun s hs => hPQ s (hP s hs)⟩

theorem apply (h : ToldOnly P first r) {c : Registry.Call} (hc : ∀ s ∈ c.samples, P s) :
    ToldOnly P first (r.apply c) := by
  obtain ⟨calls, rfl, hP⟩ := h
  refine ⟨calls ++ [c], (Registry.run_append first calls [c]).symm, fun s hs => ?_⟩
  rw [Registry.recorded_append, List.mem_append] at hs
  exact hs.elim (hP s) fun hs => hc s (by simpa [Registry.recorded] using hs)

end ToldOnly

namespace Pipeline

structure Only (P : Sample → Prop) (first : Registry γ) (p : Pipeline γ) : Prop where
  queued : ∀ s ∈ p.intake.queue.toList, P s
  waiting : ∀ s ∈ p.batch.waiting.toList, P s
  told : ToldOnly P first p.registry

namespace Only

variable {P Q : Sample → Prop} {first : Registry γ} {p p' : Pipeline γ}

theorem imp (h : p.Only P first) (hPQ : ∀ s, P s → Q s) : p.Only Q first :=
  ⟨fun s hs => hPQ s (h.queued s hs), fun s hs => hPQ s (h.waiting s hs), h.told.imp hPQ⟩

theorem flush (h : p.Only P first) : p.flush.Only P first where
  queued := h.queued
  waiting := by
    have hwaiting : p.flush.batch.waiting = #[] := Batch.flush_waiting p.batch p.registry
    simp [hwaiting]
  told := by
    have hregistry : p.flush.registry = p.registry.apply (.recordAll p.batch.waiting.toList) :=
      Batch.flush_registry p.batch p.registry
    rw [hregistry]
    exact h.told.apply h.waiting

theorem accept (h : p.Only P first) {s : Sample} (hs : P s) : (p.accept s).Only P first := by
  cases hallowed : p.filter.allows s.entity with
  | false =>
    rw [accept_of_filtered hallowed]
    exact ⟨h.queued, h.waiting, h.told⟩
  | true =>
    rw [accept_of_allowed hallowed]
    obtain ⟨moved, hregistry, hmoved⟩ := Batch.push_moves p.batch s p.registry
    have hall : ∀ t ∈ moved ++ (p.batch.push s p.registry).2.1.waiting.toList, P t := by
      rw [hmoved]
      simpa [or_imp, forall_and, hs] using h.waiting
    refine ⟨h.queued, fun t ht => hall t (List.mem_append_right _ ht), ?_⟩
    dsimp only
    rw [hregistry]
    exact h.told.apply (c := .recordAll moved) fun t ht => hall t (List.mem_append_left _ ht)

theorem takeOne {next : Phase} (h : p.Only P first) (htake : p.takeOne next = some p') : p'.Only P first := by
  obtain ⟨s, queue, htaken, rfl⟩ := takeOne_some htake
  obtain ⟨hlist, -⟩ := Queue.take?_eq_some htaken
  have hqueued := h.queued
  rw [hlist] at hqueued
  obtain ⟨hs, hrest⟩ := List.forall_mem_cons.mp hqueued
  have hnext : Only P first { p with intake := { p.intake with queue }, phase := next } :=
    ⟨hrest, h.waiting, h.told⟩
  exact hnext.accept hs

theorem move (h : p.Only P first) (hmove : Move p p') : p'.Only P first := by
  cases hmove with
  | close _ _ => exact ⟨h.queued, h.waiting, h.told⟩
  | wake _ _ _ htake => exact h.takeOne htake
  | more _ _ _ htake => exact h.takeOne htake
  | rest left _ =>
    rw [step?.rest]
    split
    · exact ⟨h.queued, h.waiting, h.told⟩
    · exact ⟨h.flush.queued, h.flush.waiting, h.flush.told⟩
  | drain _ _ htake => exact h.takeOne htake
  | stop _ _ => exact ⟨h.flush.queued, h.flush.waiting, h.flush.told⟩

theorem reset (h : p.Only P first) (now : Instant) :
    Only P first { p with registry := p.registry.resetIntervals now } :=
  ⟨h.queued, h.waiting, h.told.apply (c := .resetIntervals now) nofun⟩

theorem offer (h : p.Only P first) {s : Sample} (hs : P s) :
    Only P first { p with intake := (p.intake.offer s).2 } := by
  cases hopen : p.intake.queue.closed with
  | true =>
    rw [Intake.offer, Queue.offer_of_closed hopen]
    exact h
  | false =>
    by_cases hfull : p.intake.queue.capacity ≤ p.intake.queue.size
    · rw [Intake.offer, Queue.offer_of_full hopen hfull]
      exact ⟨h.queued, h.waiting, h.told⟩
    · obtain ⟨queue, hoffer, hlist, -⟩ := Queue.offer_of_room hopen (Nat.lt_of_not_le hfull) s
      rw [Intake.offer, hoffer]
      refine ⟨?_, h.waiting, h.told⟩
      simpa [hlist, or_imp, forall_and, hs] using h.queued

end Only

end Pipeline

def Act.Offers (s : Sample) : Act → Prop
  | .sender (.offer t) => s = t
  | .sender (.deliver origin r) => s = r.sample origin
  | _ => False

theorem Traffic.act_only {P : Sample → Prop} {first : Registry γ} {z : Traffic γ}
    (h : z.pipeline.Only P first) {a : Act} (ha : ∀ s, a.Offers s → P s) :
    (z.act a).pipeline.Only P first := by
  cases a with
  | sender request =>
    rw [act]
    split_ifs with hsenders
    · exact h
    · cases request with
      | offer s => exact h.offer (ha s rfl)
      | deliver origin r => exact h.offer (ha (r.sample origin) rfl)
      | clone => exact h
      | leave => exact ⟨h.queued, h.waiting, h.told⟩
  | cancel => exact ⟨h.queued, h.waiting, h.told⟩
  | step =>
    rw [act]
    cases hstep : z.pipeline.step? with
    | none => exact h
    | some p => exact h.move (Pipeline.step?_move hstep)

end Way

def Completion.record (x : Completion) (number : UInt32) : Record := ⟨number, x.elapsed.toUInt64⟩

structure Tracing (γ : Type) where
  session : Correlator.Session
  traffic : Traffic γ
  delivered : List (Origin × Record)

namespace Tracing

inductive Event
  | issue (operation : Nat) (entity : EntityKey) (time : UInt64)
  | complete (operation : Nat) (time : UInt64) (origin : Origin) (number : UInt32)
  | clear
  | buffer (origin : Origin) (bytes : List UInt8)
  | clone
  | leave
  | cancel
  | step
  | reset (now : Instant)

def start (tableSize : Nat) (p : Pipeline γ) : Tracing γ := ⟨⟨[], .empty tableSize⟩, .start p, []⟩

def call (z : Tracing γ) (c : Correlator.Call) : Tracing γ :=
  { z with session := Correlator.follow z.session c }

section Run

variable [Draws γ]

def act (z : Tracing γ) (a : Act) : Tracing γ := { z with traffic := z.traffic.act a }

def deliver (z : Tracing γ) (origin : Origin) (r : Record) : Tracing γ :=
  { z.act (.sender (.deliver origin r)) with delivered := z.delivered ++ [(origin, r)] }

def deliverAll (z : Tracing γ) (origin : Origin) (records : List (Except RecordError Record)) : Tracing γ :=
  records.foldl (fun z r => r.toOption.elim z (z.deliver origin)) z

def next (z : Tracing γ) : Event → Tracing γ
  | .issue operation entity time => z.call (.issue operation entity time.toNat)
  | .complete operation time origin number =>
    let completion := (z.session.table.complete operation time.toNat).1
    let z := z.call (.complete operation time.toNat)
    completion.elim z fun x => z.deliver origin (x.record number)
  | .clear => z.call .clear
  | .buffer origin bytes => z.deliverAll origin (Record.all bytes)
  | .clone => z.act (.sender .clone)
  | .leave => z.act (.sender .leave)
  | .cancel => z.act .cancel
  | .step => z.act .step
  | .reset now =>
    let p := z.traffic.pipeline
    { z with traffic.pipeline := { p with registry := p.registry.resetIntervals now } }

def run (z : Tracing γ) (events : List Event) : Tracing γ := events.foldl next z

/-- The sample of a record that was delivered. -/
def Measured (z : Tracing γ) (s : Sample) : Prop := ∃ origin r, (origin, r) ∈ z.delivered ∧ s = r.sample origin

def Found (z : Tracing γ) (events : List Event) (origin : Origin) (r : Record) : Prop :=
  (∃ bytes, .buffer origin bytes ∈ events ∧ .ok r ∈ Record.all bytes) ∨
    ∃ x ∈ Correlator.samples z.session.history, r.elapsed.toNat = x.elapsed

structure Sound (first : Registry γ) (events : List Event) (z : Tracing γ) : Prop where
  only : z.traffic.pipeline.Only z.Measured first
  found : ∀ origin r, (origin, r) ∈ z.delivered → z.Found events origin r

namespace Sound

variable {first : Registry γ} {events : List Event} {z : Tracing γ} {origin : Origin} {r : Record}

theorem more (h : Sound first events z) (e : Event) : Sound first (events ++ [e]) z where
  only := h.only
  found origin r hr := (h.found origin r hr).imp_left fun ⟨bytes, hbytes, hin⟩ =>
    ⟨bytes, List.mem_append_left _ hbytes, hin⟩

theorem act (h : Sound first events z) {a : Act} (ha : ∀ s, a.Offers s → z.Measured s) :
    Sound first events (z.act a) :=
  ⟨Traffic.act_only h.only ha, h.found⟩

theorem call (h : Sound first events z) (c : Correlator.Call) : Sound first events (z.call c) where
  only := h.only
  found origin r hr := (h.found origin r hr).imp_right fun ⟨x, hx, hr⟩ => by
    refine ⟨x, ?_, hr⟩
    simp only [Correlator.samples, Tracing.call, Correlator.follow, List.filterMap_append]
    exact List.mem_append_left _ hx

theorem deliver (h : Sound first events z) (hr : z.Found events origin r) :
    Sound first events (z.deliver origin r) where
  only := by
    have hmore : ∀ s, z.Measured s → (z.deliver origin r).Measured s := fun s ⟨o, r', hin, hs⟩ =>
      ⟨o, r', List.mem_append_left _ hin, hs⟩
    refine Traffic.act_only (h.only.imp hmore) fun s hs => ?_
    exact ⟨origin, r, List.mem_append_right _ (List.mem_singleton_self _), hs⟩
  found o r' hin := by
    obtain hin | hin := List.mem_append.mp hin
    · exact h.found o r' hin
    · cases List.mem_singleton.mp hin
      exact hr

theorem deliverAll (h : Sound first events z) {records : List (Except RecordError Record)}
    (hall : ∀ r, .ok r ∈ records → z.Found events origin r) :
    Sound first events (z.deliverAll origin records) := by
  induction records generalizing z with
  | nil => exact h
  | cons record records ih =>
    have hrest : ∀ r, .ok r ∈ records → z.Found events origin r :=
      fun r hr => hall r (List.mem_cons_of_mem _ hr)
    cases record with
    | error e => exact ih h hrest
    | ok r => exact ih (h.deliver (hall r List.mem_cons_self)) hrest

theorem complete (h : Sound first events z) (operation : Nat) (time : UInt64) (origin : Origin)
    (number : UInt32) : Sound first events (z.next (.complete operation time origin number)) := by
  have hcall := h.call (.complete operation time.toNat)
  rw [next]
  cases hcompletion : (z.session.table.complete operation time.toNat).1 with
  | none => exact hcall
  | some x =>
    refine hcall.deliver (.inr ⟨x, ?_, ?_⟩)
    · simp only [Correlator.samples, Tracing.call, Correlator.follow, Correlator.answer, List.filterMap_append]
      refine List.mem_append_right _ ?_
      rw [hcompletion]
      exact List.mem_singleton_self x
    · -- The clock may run backwards, and then no time has passed.
      obtain ⟨start, -, helapsed⟩ := (Correlator.complete_eq_some_iff operation time.toNat x).mp hcompletion
      have hle : x.elapsed ≤ time.toNat := helapsed ▸ Nat.sub_le _ _
      exact UInt64.toNat_ofNat_of_lt' (hle.trans_lt time.toNat_lt)

theorem next (h : Sound first events z) (e : Event) : Sound first (events ++ [e]) (z.next e) := by
  have hmore := h.more e
  cases e with
  | issue operation entity time => exact hmore.call _
  | complete operation time origin number => exact hmore.complete operation time origin number
  | clear => exact hmore.call .clear
  | buffer origin bytes =>
    exact hmore.deliverAll fun r hr => .inl ⟨bytes, List.mem_append_right _ (List.mem_singleton_self _), hr⟩
  | clone => exact hmore.act nofun
  | leave => exact hmore.act nofun
  | cancel => exact hmore.act nofun
  | step => exact hmore.act nofun
  | reset now => exact ⟨hmore.only.reset now, hmore.found⟩

theorem start (tableSize capacity : Nat) (filter : Filter) (flushEvery warmup : Nat) (first : Registry γ) :
    Sound first [] (Tracing.start tableSize (.start capacity filter (.empty flushEvery warmup) first)) :=
  ⟨⟨nofun, nofun, .start _ first⟩, nofun⟩

theorem run (h : Sound first [] z) (events : List Event) : Sound first events (z.run events) := by
  induction events using List.reverseRecOn with
  | nil => exact h
  | append_singleton events e ih =>
    rw [Tracing.run, List.foldl_append]
    exact ih.next e

end Sound

/-- Every sample that the registry was told has the microseconds of a record, one at the least, and every
record comes from a buffer or has the nanoseconds of a matched completion. So neither window of any entity
has taken a zero. -/
theorem traced_never_idle (strategy : Strategy) (draws : EntityKey → γ × γ) (now : Instant)
    (tableSize capacity : Nat) (filter : Filter) (flushEvery warmup : Nat) (events : List Event) :
    let fresh := Registry.empty strategy draws now
    let z := (start tableSize (Pipeline.start capacity filter (.empty flushEvery warmup) fresh)).run events
    let registry := z.traffic.pipeline.registry
    (∃ calls, registry = fresh.run calls ∧ ∀ s ∈ Registry.recorded calls, ∃ origin r,
      (origin, r) ∈ z.delivered ∧ s.entity = origin.key r.entity ∧ s.value = max 1 (r.elapsed.toNat / 1000)) ∧
    (∀ origin r, (origin, r) ∈ z.delivered →
      (∃ bytes, .buffer origin bytes ∈ events ∧ .ok r ∈ Record.all bytes) ∨
        ∃ x ∈ Correlator.samples z.session.history, r.elapsed.toNat = x.elapsed) ∧
    ∀ key stats, registry.stats? key = some stats → stats.interval.Busy ∧ stats.lifetime.Busy := by
  intro fresh z registry
  have hsound : Sound fresh events z :=
    (Sound.start tableSize capacity filter flushEvery warmup fresh).run events
  obtain ⟨calls, hcalls, hmeasured⟩ := hsound.only.told
  have hvalue : ∀ s ∈ Registry.recorded calls, ∃ origin r, (origin, r) ∈ z.delivered ∧
      s.entity = origin.key r.entity ∧ s.value = max 1 (r.elapsed.toNat / 1000) := by
    intro s hs
    obtain ⟨origin, r, hr, rfl⟩ := hmeasured s hs
    exact ⟨origin, r, hr, rfl, Nat.max_comm _ _⟩
  refine ⟨⟨calls, hcalls, hvalue⟩, hsound.found, fun key stats hstats => ?_⟩
  have hstats' : (fresh.run calls).stats? key = some stats := hcalls ▸ hstats
  refine Registry.stats_busy (fun s hs => ?_) hstats'
  obtain ⟨origin, r, -, -, hs⟩ := hvalue s hs
  omega

end Run

def instantaneous : List Event := [.buffer .syscall (Record.toBytes ⟨7, 0⟩ 0), .step]

def quiet : Registry (List Nat) := .empty (.sketch 0.01) (fun _ => ([], [])) 0

theorem instantaneous_registry :
    ((start 1 (Pipeline.start 1 .all (.empty 1 1) quiet)).run instantaneous).traffic.pipeline.registry =
      quiet.run [.recordAll [⟨.syscall 7, 1⟩]] := by
  have hall : Record.all (Record.toBytes ⟨7, 0⟩ 0) = [.ok ⟨7, 0⟩] := Record.all_toBytes _ _
  simp only [run, instantaneous, List.foldl_cons, List.foldl_nil, next, hall]
  rfl

theorem traced_never_idle_instantaneous :
    ∃ stats, ((start 1 (Pipeline.start 1 .all (.empty 1 1) quiet)).run
        instantaneous).traffic.pipeline.registry.stats? (.syscall 7) = some stats ∧
      stats.interval.exact.utilization = some 1 ∧ 1 ≤ stats.interval.exact.min := by
  have hstats := Registry.stats?_run_empty (.sketch 0.01) (fun _ => (([], []) : List Nat × List Nat)) 0
    [.recordAll [⟨.syscall 7, 1⟩]] (.syscall 7)
  rw [if_pos (by decide)] at hstats
  obtain ⟨-, -, hbusy⟩ := traced_never_idle (.sketch 0.01) (fun _ => (([], []) : List Nat × List Nat)) 0
    1 1 .all 1 1 instantaneous
  have hregistry := (congrArg (·.stats? (.syscall 7)) instantaneous_registry).trans hstats
  obtain ⟨hinterval, -⟩ := hbusy (.syscall 7) _ hregistry
  exact ⟨_, hregistry, hinterval.utilization (by decide) (by decide), hinterval.least (by decide)⟩

end Tracing

end QuantileMonitor.Ingest
