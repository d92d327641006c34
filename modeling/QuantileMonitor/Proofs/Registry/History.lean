import QuantileMonitor.Proofs.Registry.Isolation

/-!
# What a history records

The values in the history of a key are those of its samples, in all calls, and the history has a reset
only if some call is one.
-/

namespace QuantileMonitor.Registry

theorem Call.mem_keys_of_mem_samples {c : Call} {s : Sample} (h : s ∈ c.samples) :
    s.entity ∈ c.keys := by
  cases c with
  | record key v =>
    obtain rfl := List.mem_singleton.mp h
    exact List.mem_singleton_self key
  | recordAll samples => exact List.mem_map_of_mem h
  | register key => cases h
  | resetIntervals now => cases h

theorem Call.recorded_changes (c : Call) (key : EntityKey) :
    Change.recorded (c.changes key) = (c.samples.filter (·.entity = key)).map (·.value) := by
  cases c with
  | record k v =>
    by_cases hk : k = key
    · simp [Call.changes, Call.samples, Change.recorded, hk]
    · simp [Call.changes, Call.samples, Change.recorded, hk]
  | recordAll samples =>
    simp only [Call.changes, Call.samples, Change.recorded, List.filterMap_map]
    rw [← List.filterMap_eq_map]
    rfl
  | register k => rfl
  | resetIntervals now => rfl

theorem recorded_changes (key : EntityKey) (calls : List Call) :
    Change.recorded (calls.flatMap (Call.changes key)) =
      ((recorded calls).filter (·.entity = key)).map (·.value) := by
  induction calls with
  | nil => rfl
  | cons c calls ih =>
    rw [List.flatMap_cons, Change.recorded_append, c.recorded_changes, ih, recorded_cons,
      List.filter_append, List.map_append]

theorem recorded_register (keys : List EntityKey) (calls : List Call) :
    recorded (keys.map .register ++ calls) = recorded calls := by
  rw [recorded_append]
  simp [recorded, Call.samples, List.flatMap_map]

theorem recorded_history (key : EntityKey) (calls : List Call) :
    Change.recorded (history key calls) =
      ((recorded calls).filter (·.entity = key)).map (·.value) := by
  induction calls with
  | nil => rfl
  | cons c calls ih =>
    by_cases hkey : key ∈ c.keys
    · rw [history_cons_of_mem hkey, recorded_changes]
    · -- The history leaves this call out, and the call has no sample of the key.
      have hnone : c.samples.filter (·.entity = key) = [] := by
        refine List.filter_eq_nil_iff.mpr fun s hs hentity => hkey ?_
        rw [← of_decide_eq_true hentity]
        exact Call.mem_keys_of_mem_samples hs
      rw [history_cons_of_not_mem hkey, ih, recorded_cons, List.filter_append, hnone, List.nil_append]

theorem Call.reset_mem_changes {c : Call} {key : EntityKey} (h : .reset ∈ c.changes key) :
    ∃ now, c = .resetIntervals now := by
  cases c with
  | record k v =>
    by_cases hk : k = key
    · simp [Call.changes, hk] at h
    · simp [Call.changes, hk] at h
  | recordAll samples => simp [Call.changes] at h
  | register k => cases h
  | resetIntervals now => exact ⟨now, rfl⟩

theorem reset_mem_history {key : EntityKey} {calls : List Call} (h : .reset ∈ history key calls) :
    ∃ now, .resetIntervals now ∈ calls := by
  obtain ⟨c, hc, hreset⟩ := List.mem_flatMap.mp h
  obtain ⟨now, rfl⟩ := Call.reset_mem_changes hreset
  exact ⟨now, (List.dropWhile_suffix _).subset hc⟩

end QuantileMonitor.Registry
