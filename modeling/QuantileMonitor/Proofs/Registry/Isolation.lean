import QuantileMonitor.Proofs.Registry.Snapshot
import QuantileMonitor.Proofs.Stream

/-!
# Isolation of entities

Calls on a registry come from any number of tasks; each holds the lock, so every schedule is a list
of calls. After any list the statistics of a key are those of fresh statistics that took exactly the
samples of that key and the resets issued since the key was first seen, whatever happened to the
other keys.
-/

namespace QuantileMonitor.Registry

open Quantile

inductive Call
  | record (key : EntityKey) (v : Nat)
  | recordAll (samples : List Sample)
  | register (key : EntityKey)
  | resetIntervals (now : Instant)

namespace Call

def keys : Call → List EntityKey
  | record key _ => [key]
  | recordAll samples => samples.map (·.entity)
  | register key => [key]
  | resetIntervals _ => []

def samples : Call → List Sample
  | record key v => [⟨key, v⟩]
  | recordAll samples => samples
  | register _ => []
  | resetIntervals _ => []

def changes (key : EntityKey) : Call → List Change
  | record k v => if k = key then [.value v] else []
  | recordAll samples => (samples.filter (·.entity = key)).map fun s => .value s.value
  | register _ => []
  | resetIntervals _ => [.reset]

end Call

def seen (calls : List Call) : List EntityKey := calls.flatMap Call.keys

def recorded (calls : List Call) : List Sample := calls.flatMap Call.samples

/-- The history of a key begins with the first call that mentions it. -/
def history (key : EntityKey) (calls : List Call) : List Change :=
  (calls.dropWhile fun c => decide (key ∉ c.keys)).flatMap (Call.changes key)

theorem recorded_cons (c : Call) (calls : List Call) :
    recorded (c :: calls) = c.samples ++ recorded calls := List.flatMap_cons

theorem recorded_append (calls more : List Call) :
    recorded (calls ++ more) = recorded calls ++ recorded more := List.flatMap_append

section Run

variable {γ : Type} [Draws γ]

def apply (r : Registry γ) : Call → Registry γ
  | .record key v => r.record key v
  | .recordAll samples => r.recordAll samples
  | .register key => r.register key
  | .resetIntervals now => r.resetIntervals now

def run (r : Registry γ) (calls : List Call) : Registry γ := calls.foldl apply r

theorem record_continues (r : Registry γ) (key : EntityKey) (v : Nat) :
    (r.record key v).Continues r :=
  (update_continues (r.register key) key _).trans (register_continues r key)

theorem recordAll_cons (r : Registry γ) (s : Sample) (samples : List Sample) :
    r.recordAll (s :: samples) = (r.record s.entity s.value).recordAll samples := rfl

theorem recordAll_indexed {r : Registry γ} (h : r.Indexed) (samples : List Sample) :
    (r.recordAll samples).Indexed := by
  induction samples generalizing r with
  | nil => exact h
  | cons s samples ih => exact ih (record_indexed h s.entity s.value)

theorem recordAll_continues (r : Registry γ) (samples : List Sample) :
    (r.recordAll samples).Continues r := by
  induction samples generalizing r with
  | nil => exact ⟨rfl, rfl⟩
  | cons s samples ih => exact (ih _).trans (record_continues r s.entity s.value)

theorem mem_keys_recordAll {r : Registry γ} (h : r.Indexed) (samples : List Sample)
    (k : EntityKey) :
    k ∈ (r.recordAll samples).keys ↔ k ∈ r.keys ∨ k ∈ samples.map (·.entity) := by
  induction samples generalizing r with
  | nil => simp [recordAll]
  | cons s samples ih =>
    rw [recordAll_cons, ih (record_indexed h s.entity s.value), keys_record h,
      mem_keys_register h, List.map_cons, List.mem_cons, or_assoc]

theorem keys_prefix_recordAll {r : Registry γ} (h : r.Indexed) (samples : List Sample) :
    r.keys <+: (r.recordAll samples).keys := by
  induction samples generalizing r with
  | nil => exact List.prefix_refl _
  | cons s samples ih =>
    have hfirst : r.keys <+: (r.record s.entity s.value).keys := by
      rw [keys_record h]
      exact keys_prefix_register r s.entity
    exact hfirst.trans (ih (record_indexed h s.entity s.value))

theorem totalCount_recordAll {r : Registry γ} (h : r.Indexed) (samples : List Sample) :
    (r.recordAll samples).totalCount = r.totalCount + samples.length := by
  induction samples generalizing r with
  | nil => rfl
  | cons s samples ih =>
    rw [recordAll_cons, ih (record_indexed h s.entity s.value), totalCount_record h,
      List.length_cons]
    omega

theorem stats?_recordAll {r : Registry γ} (h : r.Indexed) (samples : List Sample)
    (k : EntityKey) :
    (r.recordAll samples).stats? k =
      if k ∈ r.keys ∨ k ∈ samples.map (·.entity) then
        some ((((samples.filter (·.entity = k)).map fun s => Change.value s.value).foldl
          EntityStats.change) (r.statsOf k))
      else none := by
  induction samples generalizing r with
  | nil =>
    by_cases hk : k ∈ r.keys
    · obtain ⟨s, hs⟩ := Option.isSome_iff_exists.mp ((h.stats?_isSome_iff k).mpr hk)
      simp [recordAll, hk, statsOf, hs]
    · simp [recordAll, hk, (h.stats?_eq_none_iff k).mpr hk]
  | cons s samples ih =>
    have hnext := record_indexed h s.entity s.value
    rw [recordAll_cons, ih hnext]
    have hmem : (k ∈ (r.record s.entity s.value).keys ∨ k ∈ samples.map (·.entity)) ↔
        (k ∈ r.keys ∨ k ∈ (s :: samples).map (·.entity)) := by
      rw [keys_record h, mem_keys_register h, List.map_cons, List.mem_cons, or_assoc]
    simp only [hmem]
    congr 2
    by_cases hk : s.entity = k
    · subst hk
      have hself : (r.record s.entity s.value).statsOf s.entity =
          (r.statsOf s.entity).record s.value := by
        rw [statsOf, stats?_record h, if_pos rfl]
        rfl
      simp [hself, EntityStats.change]
    · have hother : (r.record s.entity s.value).statsOf k = r.statsOf k := by
        refine statsOf_eq (record_continues r s.entity s.value) ?_
        rw [stats?_record h, if_neg (Ne.symm hk)]
      simp [hother, hk]

theorem apply_indexed {r : Registry γ} (h : r.Indexed) (c : Call) : (r.apply c).Indexed := by
  cases c with
  | record key v => exact record_indexed h key v
  | recordAll samples => exact recordAll_indexed h samples
  | register key => exact register_indexed h key
  | resetIntervals now => exact resetIntervals_indexed h now

theorem apply_continues (r : Registry γ) (c : Call) : (r.apply c).Continues r := by
  cases c with
  | record key v => exact record_continues r key v
  | recordAll samples => exact recordAll_continues r samples
  | register key => exact register_continues r key
  | resetIntervals now => exact ⟨rfl, rfl⟩

theorem mem_keys_apply {r : Registry γ} (h : r.Indexed) (c : Call) (k : EntityKey) :
    k ∈ (r.apply c).keys ↔ k ∈ r.keys ∨ k ∈ c.keys := by
  cases c with
  | record key v => rw [apply, keys_record h, mem_keys_register h, Call.keys, List.mem_singleton]
  | recordAll samples => exact mem_keys_recordAll h samples k
  | register key => rw [apply, mem_keys_register h, Call.keys, List.mem_singleton]
  | resetIntervals now => simp [apply, keys_resetIntervals, Call.keys]

theorem keys_prefix_apply {r : Registry γ} (h : r.Indexed) (c : Call) :
    r.keys <+: (r.apply c).keys := by
  cases c with
  | record key v =>
    rw [apply, keys_record h]
    exact keys_prefix_register r key
  | recordAll samples => exact keys_prefix_recordAll h samples
  | register key => exact keys_prefix_register r key
  | resetIntervals now =>
    simp only [apply, keys_resetIntervals, List.prefix_rfl]

theorem totalCount_apply {r : Registry γ} (h : r.Indexed) (c : Call) :
    (r.apply c).totalCount = r.totalCount + c.samples.length := by
  cases c with
  | record key v => exact totalCount_record h key v
  | recordAll samples => exact totalCount_recordAll h samples
  | register key => exact totalCount_register r key
  | resetIntervals now => exact totalCount_resetIntervals r now

theorem stats?_apply {r : Registry γ} (h : r.Indexed) (c : Call) (k : EntityKey) :
    (r.apply c).stats? k =
      if k ∈ r.keys ∨ k ∈ c.keys then some ((c.changes k).foldl EntityStats.change (r.statsOf k))
      else none := by
  cases c with
  | record key v =>
    have hall := stats?_recordAll h [⟨key, v⟩] k
    by_cases hk : key = k
    · simpa [recordAll, apply, Call.keys, Call.changes, hk] using hall
    · simpa [recordAll, apply, Call.keys, Call.changes, hk] using hall
  | recordAll samples => exact stats?_recordAll h samples k
  | register key =>
    simp only [apply, stats?_register h, Call.keys, Call.changes, List.mem_singleton,
      List.foldl_nil]
    by_cases hk : k = key
    · subst k
      simp [statsOf]
    · by_cases hm : k ∈ r.keys
      · obtain ⟨s, hs⟩ := Option.isSome_iff_exists.mp ((h.stats?_isSome_iff k).mpr hm)
        simp [hk, hm, statsOf, hs]
      · simp [hk, hm, (h.stats?_eq_none_iff k).mpr hm]
  | resetIntervals now =>
    simp only [apply, stats?_resetIntervals, Call.keys, Call.changes, List.not_mem_nil, or_false,
      List.foldl_cons, List.foldl_nil, EntityStats.change]
    by_cases hm : k ∈ r.keys
    · obtain ⟨s, hs⟩ := Option.isSome_iff_exists.mp ((h.stats?_isSome_iff k).mpr hm)
      simp [hm, statsOf, hs]
    · simp [hm, (h.stats?_eq_none_iff k).mpr hm]

theorem run_cons (r : Registry γ) (c : Call) (calls : List Call) :
    r.run (c :: calls) = (r.apply c).run calls := rfl

theorem run_append (r : Registry γ) (calls more : List Call) :
    r.run (calls ++ more) = (r.run calls).run more := List.foldl_append

theorem run_indexed {r : Registry γ} (h : r.Indexed) (calls : List Call) :
    (r.run calls).Indexed := by
  induction calls generalizing r with
  | nil => exact h
  | cons c calls ih => exact ih (apply_indexed h c)

theorem mem_seen_cons (c : Call) (calls : List Call) (k : EntityKey) :
    k ∈ seen (c :: calls) ↔ k ∈ c.keys ∨ k ∈ seen calls := by
  rw [seen, List.flatMap_cons, List.mem_append, seen]

theorem mem_keys_run {r : Registry γ} (h : r.Indexed) (calls : List Call) (k : EntityKey) :
    k ∈ (r.run calls).keys ↔ k ∈ r.keys ∨ k ∈ seen calls := by
  induction calls generalizing r with
  | nil => simp [run, seen]
  | cons c calls ih =>
    rw [run_cons, ih (apply_indexed h c), mem_keys_apply h, mem_seen_cons, or_assoc]

theorem keys_prefix_run {r : Registry γ} (h : r.Indexed) (calls : List Call) :
    r.keys <+: (r.run calls).keys := by
  induction calls generalizing r with
  | nil => exact List.prefix_refl _
  | cons c calls ih => exact (keys_prefix_apply h c).trans (ih (apply_indexed h c))

theorem totalCount_run {r : Registry γ} (h : r.Indexed) (calls : List Call) :
    (r.run calls).totalCount = r.totalCount + (recorded calls).length := by
  induction calls generalizing r with
  | nil => rfl
  | cons c calls ih =>
    rw [run_cons, ih (apply_indexed h c), totalCount_apply h, recorded_cons, List.length_append]
    omega

theorem stats?_run_of_mem {r : Registry γ} (h : r.Indexed) {k : EntityKey} (hk : k ∈ r.keys)
    (calls : List Call) :
    (r.run calls).stats? k =
      some ((calls.flatMap (Call.changes k)).foldl EntityStats.change (r.statsOf k)) := by
  induction calls generalizing r with
  | nil =>
    obtain ⟨s, hs⟩ := Option.isSome_iff_exists.mp ((h.stats?_isSome_iff k).mpr hk)
    simp [run, statsOf, hs]
  | cons c calls ih =>
    have hstats := stats?_apply h c k
    rw [if_pos (Or.inl hk)] at hstats
    rw [run_cons, ih (apply_indexed h c) ((mem_keys_apply h c k).mpr (Or.inl hk)), statsOf, hstats,
      List.flatMap_cons, List.foldl_append]
    rfl

theorem history_cons_of_mem {c : Call} {k : EntityKey} (hk : k ∈ c.keys) (calls : List Call) :
    history k (c :: calls) = (c :: calls).flatMap (Call.changes k) := by
  simp [history, hk]

theorem history_cons_of_not_mem {c : Call} {k : EntityKey} (hk : k ∉ c.keys) (calls : List Call) :
    history k (c :: calls) = history k calls := by
  simp [history, hk]

theorem stats?_run_of_not_mem {r : Registry γ} (h : r.Indexed) {k : EntityKey} (hk : k ∉ r.keys)
    (calls : List Call) :
    (r.run calls).stats? k =
      if k ∈ seen calls then some ((history k calls).foldl EntityStats.change (r.statsOf k))
      else none := by
  induction calls generalizing r with
  | nil => simp [run, seen, (h.stats?_eq_none_iff k).mpr hk]
  | cons c calls ih =>
    have hnext := apply_indexed h c
    have hstats := stats?_apply h c k
    by_cases hc : k ∈ c.keys
    · rw [if_pos (Or.inr hc)] at hstats
      have hseen := (mem_seen_cons c calls k).mpr (Or.inl hc)
      rw [run_cons, stats?_run_of_mem hnext ((mem_keys_apply h c k).mpr (Or.inr hc)), statsOf,
        hstats, if_pos hseen, history_cons_of_mem hc, List.flatMap_cons, List.foldl_append]
      rfl
    · have hfresh : k ∉ (r.apply c).keys := by
        rw [mem_keys_apply h]
        exact not_or.mpr ⟨hk, hc⟩
      have hsame : (r.apply c).stats? k = r.stats? k := by
        rw [(hnext.stats?_eq_none_iff k).mpr hfresh, (h.stats?_eq_none_iff k).mpr hk]
      have hseen : k ∈ seen (c :: calls) ↔ k ∈ seen calls := by
        rw [mem_seen_cons]
        exact or_iff_right hc
      rw [run_cons, ih hnext hfresh, history_cons_of_not_mem hc,
        statsOf_eq (apply_continues r c) hsame]
      simp only [hseen]

theorem stats?_run_empty (strategy : Strategy) (draws : EntityKey → γ × γ) (now : Instant)
    (calls : List Call) (k : EntityKey) :
    ((empty strategy draws now).run calls).stats? k =
      if k ∈ seen calls then some (EntityStats.replay strategy (draws k) (history k calls))
      else none := by
  have hkeys : (empty strategy draws now).keys = [] := rfl
  have hstats : (empty strategy draws now).statsOf k = .empty strategy (draws k) := by
    simp [statsOf, stats?, empty]
  rw [stats?_run_of_not_mem (empty_indexed strategy draws now) (by simp [hkeys]), hstats]
  rfl

theorem mem_entities_run_iff (strategy : Strategy) (draws : EntityKey → γ × γ) (start : Instant)
    (calls : List Call) (now : Instant) (k : EntityKey) (s : EntityStats γ) :
    (k, s) ∈ (((empty strategy draws start).run calls).snapshot now).entities ↔
      k ∈ seen calls ∧ s = (EntityStats.replay strategy (draws k) (history k calls)).snapshot := by
  have h := run_indexed (empty_indexed strategy draws start) calls
  have hnodup := (keys_snapshot_perm _ now).nodup_iff.mpr h.keys_nodup
  rw [← Snapshot.get?_eq_some_iff hnodup, get?_snapshot h, stats?_run_empty]
  split
  next hseen => simp [hseen, eq_comm]
  next hseen => simp [hseen]

/-- The arena invariant and the isolation of entities, after every list of calls. -/
theorem run_isolates_entities (strategy : Strategy) (draws : EntityKey → γ × γ) (start : Instant)
    (calls : List Call) :
    let r := (empty strategy draws start).run calls
    (∀ (key : EntityKey) (i : Nat),
        r.index[key]? = some i ↔ ∃ s, r.slots[i]? = some (key, s)) ∧
      r.keys.Nodup ∧ (∀ key, key ∈ r.keys ↔ key ∈ seen calls) ∧
      (∀ more, r.keys <+: ((empty strategy draws start).run (calls ++ more)).keys) ∧
      (∀ key, r.stats? key =
        if key ∈ seen calls then some (EntityStats.replay strategy (draws key) (history key calls))
        else none) ∧
      r.totalCount = (recorded calls).length ∧
      ∀ now, (r.snapshot now).keys.Pairwise EntityKey.Precedes ∧
        (∀ key, key ∈ (r.snapshot now).keys ↔ key ∈ seen calls) ∧
        (∀ key, (r.snapshot now).get? key = (r.stats? key).map (·.snapshot)) ∧
        (r.snapshot now).totalCount = r.totalCount := by
  intro r
  have hempty := empty_indexed strategy draws start
  have h : r.Indexed := run_indexed hempty calls
  have hseen : ∀ key, key ∈ r.keys ↔ key ∈ seen calls := by
    intro key
    rw [mem_keys_run hempty]
    simp [keys, empty]
  refine ⟨h.slot_iff, h.keys_nodup, hseen, ?_, stats?_run_empty strategy draws start calls, ?_, ?_⟩
  · intro more
    rw [run_append]
    exact keys_prefix_run h more
  · rw [totalCount_run hempty]
    exact Nat.zero_add _
  · intro now
    refine ⟨keys_snapshot_ascending h now, ?_, get?_snapshot h now, totalCount_snapshot r now⟩
    intro key
    rw [(keys_snapshot_perm r now).mem_iff]
    exact hseen key

end Run

end QuantileMonitor.Registry
