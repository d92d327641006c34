import Mathlib.Data.Set.Card
import QuantileMonitor.Ingest.Correlator

/-!
# Issues and completions

The table of a correlator holds exactly the issues that its history leaves live. An issue lives from
the moment it is accepted until the operation is accepted anew or completed, or everything is
cleared. So each completion is matched with the one issue that is live for its operation, and no issue
is matched twice.
-/

namespace QuantileMonitor.Ingest.Correlator

inductive Call
  | issue (operation : Nat) (entity : EntityKey) (time : Nat)
  | complete (operation time : Nat)
  | clear

inductive Reply
  | stored (accepted : Bool)
  | matched (completion : Option Completion)
  | cleared

namespace Reply

def accepts : Reply → Bool
  | stored accepted => accepted
  | _ => false

def sample? : Reply → Option Completion
  | matched completion => completion
  | _ => none

end Reply

def answer (c : Correlator) : Call → Reply × Correlator
  | .issue operation entity time =>
    let (accepted, c) := c.issue operation entity time
    (.stored accepted, c)
  | .complete operation time =>
    let (completion, c) := c.complete operation time
    (.matched completion, c)
  | .clear => (.cleared, c.clear)

abbrev History := List (Call × Reply)

structure Session where
  history : History
  table : Correlator

def follow (s : Session) (call : Call) : Session :=
  let (reply, table) := s.table.answer call
  ⟨s.history ++ [(call, reply)], table⟩

def run (capacity : Nat) (calls : List Call) : Session := calls.foldl follow ⟨[], empty capacity⟩

/-- An issue of an operation is over once the operation is accepted anew or completed, matched or not,
or everything is cleared. -/
def Ends (operation : Nat) : Call × Reply → Prop
  | (.issue o _ _, .stored true) => o = operation
  | (.complete o _, _) => o = operation
  | (.clear, _) => True
  | _ => False

def Live (h : History) (operation : Nat) (entity : EntityKey) (time : Nat) : Prop :=
  ∃ before after, h = before ++ (.issue operation entity time, .stored true) :: after ∧
    ∀ x ∈ after, ¬Ends operation x

def accepted (h : History) : Nat := h.countP (·.2.accepts)

def samples (h : History) : List Completion := h.filterMap (·.2.sample?)

theorem accepted_concat (h : History) (call : Call) (reply : Reply) :
    accepted (h ++ [(call, reply)]) = accepted h + reply.accepts.toNat := by
  cases hreply : reply.accepts <;> simp [accepted, hreply]

theorem length_samples_concat (h : History) (call : Call) (reply : Reply) :
    (samples (h ++ [(call, reply)])).length = (samples h).length + reply.sample?.isSome.toNat := by
  cases hreply : reply.sample? <;> simp [samples, hreply]

theorem not_live_nil (operation : Nat) (entity : EntityKey) (time : Nat) :
    ¬Live [] operation entity time := by
  rintro ⟨before, after, heq, -⟩
  simp at heq

theorem live_concat (h : History) (x : Call × Reply) (operation : Nat) (entity : EntityKey)
    (time : Nat) :
    Live (h ++ [x]) operation entity time ↔
      x = (.issue operation entity time, .stored true) ∨
        Live h operation entity time ∧ ¬Ends operation x := by
  constructor
  · rintro ⟨before, after, heq, hafter⟩
    rcases List.eq_nil_or_concat after with rfl | ⟨after, y, rfl⟩
    · exact .inl (List.singleton_inj.mp (List.append_inj' heq rfl).2)
    · rw [List.concat_eq_append, ← List.cons_append, ← List.append_assoc] at heq
      obtain ⟨hh, hx⟩ := List.append_inj' heq rfl
      obtain rfl := List.singleton_inj.mp hx
      exact .inr ⟨⟨before, after, hh, fun z hz => hafter z (by simp [hz])⟩,
        hafter x (by simp)⟩
  · rintro (rfl | ⟨⟨before, after, rfl, hafter⟩, hx⟩)
    · exact ⟨h, [], rfl, by simp⟩
    · refine ⟨before, after ++ [x], by simp, fun z hz => ?_⟩
      rcases List.mem_append.mp hz with hz | hz
      · exact hafter z hz
      · rw [List.mem_singleton.mp hz]
        exact hx

section Calls

variable {c : Correlator}

theorem issue_of_full {operation : Nat} (hfull : c.capacity ≤ c.inFlight)
    (hnew : operation ∉ c.issued) (entity : EntityKey) (time : Nat) :
    c.issue operation entity time = (false, c) := by
  simp [issue, hfull, hnew]

theorem issue_of_room {operation : Nat} (hroom : c.inFlight < c.capacity ∨ operation ∈ c.issued)
    (entity : EntityKey) (time : Nat) :
    c.issue operation entity time =
      (true, { c with issued := c.issued.insert operation (entity, time) }) := by
  rcases hroom with hroom | hold
  · simp [issue, Nat.not_le.mpr hroom]
  · simp [issue, hold]

theorem issue_eq_false_iff (operation : Nat) (entity : EntityKey) (time : Nat) :
    (c.issue operation entity time).1 = false ↔
      c.capacity ≤ c.inFlight ∧ operation ∉ c.issued := by
  by_cases hfull : c.capacity ≤ c.inFlight
  · by_cases hold : operation ∈ c.issued
    · simp [issue_of_room (.inr hold), hold]
    · simp [issue_of_full hfull hold, hfull, hold]
  · simp [issue_of_room (.inl (Nat.not_le.mp hfull)), hfull]

theorem complete_of_none {operation : Nat} (h : c.issued[operation]? = none) (time : Nat) :
    c.complete operation time = (none, c) := by
  simp [complete, h]

theorem complete_of_some {operation : Nat} {issue : EntityKey × Nat}
    (h : c.issued[operation]? = some issue) (time : Nat) :
    c.complete operation time =
      (some ⟨issue.1, time - issue.2⟩, { c with issued := c.issued.erase operation }) := by
  simp [complete, h]

theorem complete_eq_some_iff (operation time : Nat) (x : Completion) :
    (c.complete operation time).1 = some x ↔
      ∃ start, c.issued[operation]? = some (x.entity, start) ∧ x.elapsed = time - start := by
  cases h : c.issued[operation]? with
  | none => simp [complete_of_none h]
  | some issue =>
    obtain ⟨entity, start⟩ := issue
    rw [complete_of_some h]
    constructor
    · intro heq
      obtain rfl := Option.some.inj heq
      exact ⟨start, rfl, rfl⟩
    · rintro ⟨start', heq, helapsed⟩
      obtain ⟨rfl, rfl⟩ := Prod.mk.inj (Option.some.inj heq)
      rw [← helapsed]

theorem complete_eq_none_iff (operation time : Nat) :
    (c.complete operation time).1 = none ↔ c.issued[operation]? = none := by
  cases h : c.issued[operation]? with
  | none => simp [complete_of_none h]
  | some issue => simp [complete_of_some h]

theorem issue_other {operation other : Nat} (hne : operation ≠ other) (entity : EntityKey)
    (time : Nat) : (c.issue operation entity time).2.issued[other]? = c.issued[other]? := by
  rw [issue]
  split
  · rfl
  · simp [Std.HashMap.getElem?_insert, hne]

theorem complete_other {operation other : Nat} (hne : operation ≠ other) (time : Nat) :
    (c.complete operation time).2.issued[other]? = c.issued[other]? := by
  rw [complete]
  split
  · rfl
  · simp [Std.HashMap.getElem?_erase, hne]

theorem complete_complete (operation time later : Nat) :
    ((c.complete operation time).2.complete operation later).1 = none := by
  rw [complete_eq_none_iff]
  cases h : c.issued[operation]? with
  | none => rw [complete_of_none h, h]
  | some issue => simp [complete_of_some h]

end Calls

structure Sound (capacity : Nat) (s : Session) : Prop where
  capacity_eq : s.table.capacity = capacity
  fits : s.table.inFlight ≤ capacity
  live : ∀ operation entity time, s.table.issued[operation]? = some (entity, time) ↔
    Live s.history operation entity time
  balance : (samples s.history).length + s.table.inFlight ≤ accepted s.history

namespace Sound

variable {capacity : Nat} {s : Session}

theorem start (capacity : Nat) : Sound capacity ⟨[], empty capacity⟩ where
  capacity_eq := rfl
  fits := by simp [empty, inFlight]
  live operation entity time := by simp [empty, not_live_nil]
  balance := by simp [empty, inFlight, samples]

theorem issue (h : Sound capacity s) (operation : Nat) (entity : EntityKey) (time : Nat) :
    Sound capacity (follow s (.issue operation entity time)) := by
  have hfits := h.fits
  have hbalance := h.balance
  simp only [inFlight] at hfits hbalance
  by_cases hroom : s.table.inFlight < s.table.capacity ∨ operation ∈ s.table.issued
  · have hsize : (s.table.issued.insert operation (entity, time)).size =
        if operation ∈ s.table.issued then s.table.issued.size else s.table.issued.size + 1 :=
      Std.HashMap.size_insert
    simp only [follow, answer, issue_of_room hroom]
    rw [h.capacity_eq] at hroom
    refine ⟨h.capacity_eq, ?_, fun o e t => ?_, ?_⟩
    · simp only [inFlight, hsize] at hroom ⊢
      split_ifs with hold
      · exact hfits
      · exact hroom.resolve_right hold
    · rw [live_concat, ← h.live, Std.HashMap.getElem?_insert]
      by_cases ho : operation = o
      · subst ho
        simp [Ends]
      · simp [Ends, ho]
    · simp only [inFlight, hsize, length_samples_concat, accepted_concat, Reply.sample?,
        Reply.accepts, Option.isSome_none, Bool.toNat_false, Bool.toNat_true]
      split_ifs <;> omega
  · obtain ⟨hfull, hnew⟩ := not_or.mp hroom
    simp only [follow, answer, issue_of_full (Nat.not_lt.mp hfull) hnew]
    refine ⟨h.capacity_eq, h.fits, fun o e t => ?_, ?_⟩
    · rw [live_concat, ← h.live]
      simp [Ends]
    · rw [length_samples_concat, accepted_concat]
      exact hbalance

theorem complete (h : Sound capacity s) (operation time : Nat) :
    Sound capacity (follow s (.complete operation time)) := by
  have hfits := h.fits
  have hbalance := h.balance
  simp only [inFlight] at hfits hbalance
  cases hissue : s.table.issued[operation]? with
  | none =>
    simp only [follow, answer, complete_of_none hissue]
    refine ⟨h.capacity_eq, h.fits, fun o e t => ?_, ?_⟩
    · rw [live_concat, ← h.live]
      by_cases ho : operation = o
      · subst ho
        simp [hissue]
      · simp [Ends, ho]
    · rw [length_samples_concat, accepted_concat]
      exact hbalance
  | some issue =>
    have hmem : operation ∈ s.table.issued := by
      rw [Std.HashMap.mem_iff_isSome_getElem?, hissue]
      rfl
    have hpos : 0 < s.table.issued.size := by
      rw [← Std.HashMap.length_keys]
      exact List.length_pos_of_mem (Std.HashMap.mem_keys.mpr hmem)
    have hsize : (s.table.issued.erase operation).size = s.table.issued.size - 1 := by
      rw [Std.HashMap.size_erase, if_pos hmem]
    simp only [follow, answer, complete_of_some hissue]
    refine ⟨h.capacity_eq, ?_, fun o e t => ?_, ?_⟩
    · simp only [inFlight]
      omega
    · rw [live_concat, ← h.live, Std.HashMap.getElem?_erase]
      by_cases ho : operation = o
      · subst ho
        simp [Ends]
      · simp [Ends, ho]
    · simp only [inFlight, hsize, length_samples_concat, accepted_concat, Reply.sample?,
        Reply.accepts, Option.isSome_some, Bool.toNat_false, Bool.toNat_true]
      omega

theorem clear (h : Sound capacity s) : Sound capacity (follow s .clear) where
  capacity_eq := h.capacity_eq
  fits := by simp [follow, answer, Correlator.clear, inFlight]
  live o e t := by simp [follow, answer, Correlator.clear, live_concat, Ends]
  balance := by
    have hbalance := h.balance
    simp only [follow, answer, Correlator.clear, inFlight, Std.HashMap.size_empty,
      length_samples_concat, accepted_concat, Reply.sample?, Reply.accepts, Option.isSome_none,
      Bool.toNat_false]
    omega

theorem follow (h : Sound capacity s) (call : Call) : Sound capacity (follow s call) := by
  cases call with
  | issue operation entity time => exact h.issue operation entity time
  | complete operation time => exact h.complete operation time
  | clear => exact h.clear

theorem foldl_follow (h : Sound capacity s) (calls : List Call) :
    Sound capacity (calls.foldl Correlator.follow s) := by
  induction calls generalizing s with
  | nil => exact h
  | cons call calls ih => exact ih (h.follow call)

end Sound

theorem Sound.ncard_live {capacity : Nat} {s : Session} (h : Sound capacity s) :
    {operation | ∃ entity time, Live s.history operation entity time}.ncard = s.table.inFlight := by
  have hkeys : {operation | ∃ entity time, Live s.history operation entity time} =
      (s.table.issued.keys.toFinset : Set Nat) := by
    ext operation
    simp only [Set.mem_ofPred_eq, List.coe_toFinset, Std.HashMap.mem_keys,
      Std.HashMap.mem_iff_isSome_getElem?, Option.isSome_iff_exists, Prod.exists, h.live]
  rw [hkeys, Set.ncard_coe_finset, List.toFinset_card_of_nodup Std.HashMap.nodup_keys,
    Std.HashMap.length_keys, inFlight]

/-- After every run of calls the table is as its history has it: it holds one entry for each operation
with a live issue, never more than fit. An issue is refused exactly when the table is full and has none
for its operation, and then nothing changes. A completion gives a sample exactly when an issue of its
operation is live, with the time from there on, and otherwise changes nothing. Neither touches another
operation, and there are no more samples than accepted issues. -/
theorem run_matches_issues (capacity : Nat) (calls : List Call) :
    let h := (run capacity calls).history
    let c := (run capacity calls).table
    c.inFlight ≤ capacity ∧
    {operation | ∃ entity time, Live h operation entity time}.ncard = c.inFlight ∧
    (∀ operation entity time,
      ((c.issue operation entity time).1 = false ↔
        c.inFlight = capacity ∧ ∀ e t, ¬Live h operation e t) ∧
      ((c.issue operation entity time).1 = false → (c.issue operation entity time).2 = c ∧
        ∀ later, ((c.issue operation entity time).2.complete operation later).1 = none)) ∧
    (∀ operation time x, (c.complete operation time).1 = some x ↔
      ∃ start, Live h operation x.entity start ∧ (x.elapsed : Int) = max 0 ((time : Int) - start)) ∧
    (∀ operation time,
      ((c.complete operation time).1 = none → (c.complete operation time).2 = c) ∧
      ∀ later, ((c.complete operation time).2.complete operation later).1 = none) ∧
    (∀ operation other, operation ≠ other → ∀ entity time,
      (c.issue operation entity time).2.issued[other]? = c.issued[other]? ∧
      (c.complete operation time).2.issued[other]? = c.issued[other]?) ∧
    (samples h).length ≤ accepted h := by
  intro h c
  have hsound : Sound capacity (run capacity calls) := (Sound.start capacity).foldl_follow calls
  have hcapacity : c.capacity = capacity := hsound.capacity_eq
  have hlive : ∀ operation entity time,
      c.issued[operation]? = some (entity, time) ↔ Live h operation entity time := hsound.live
  have hfits : c.inFlight ≤ capacity := hsound.fits
  have hnone : ∀ operation, c.issued[operation]? = none ↔ ∀ e t, ¬Live h operation e t := by
    intro operation
    simp only [Option.eq_none_iff_forall_ne_some, ne_eq, Prod.forall, hlive]
  have hrefused : ∀ operation entity time, (c.issue operation entity time).1 = false ↔
      c.inFlight = capacity ∧ ∀ e t, ¬Live h operation e t := by
    intro operation entity time
    rw [issue_eq_false_iff, ← hnone, getElem?_eq_none_iff, hcapacity]
    exact and_congr_left fun _ => ⟨fun hle => Nat.le_antisymm hfits hle, fun heq => heq.ge⟩
  refine ⟨hfits, hsound.ncard_live,
    fun operation entity time => ⟨hrefused operation entity time, ?_⟩, ?_, ?_, ?_, ?_⟩
  · intro hfalse
    obtain ⟨hfull, hnew⟩ := (issue_eq_false_iff operation entity time).mp hfalse
    rw [issue_of_full hfull hnew]
    refine ⟨rfl, fun later => ?_⟩
    rw [complete_eq_none_iff]
    exact Std.HashMap.getElem?_eq_none hnew
  · intro operation time x
    rw [complete_eq_some_iff]
    simp only [hlive]
    refine exists_congr fun start => and_congr_right fun _ => ?_
    omega
  · intro operation time
    refine ⟨fun hmissed => ?_, complete_complete operation time⟩
    rw [complete_of_none ((complete_eq_none_iff operation time).mp hmissed)]
  · intro operation other hne entity time
    exact ⟨issue_other hne entity time, complete_other hne time⟩
  · exact Nat.le_trans (Nat.le_add_right _ _) hsound.balance

end QuantileMonitor.Ingest.Correlator
