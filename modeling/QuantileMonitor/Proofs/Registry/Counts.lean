import QuantileMonitor.Proofs.Registry.Isolation
import QuantileMonitor.Proofs.Registry.Lifetimes

/-!
# Lifetime counts

The lifetime count of a key grows by the samples of that key and by nothing else. It can be read off the
lifetime windows alone, so registries with the same lifetimes have the same counts.
-/

namespace QuantileMonitor.Registry

variable {γ : Type} {r t : Registry γ}

def count? (r : Registry γ) (key : EntityKey) : Option Nat := (r.stats? key).map (·.totalCount)

theorem count?_empty (strategy : Quantile.Strategy) (draws : EntityKey → γ × γ) (now : Instant)
    (key : EntityKey) : (empty strategy draws now).count? key = none := by
  simp [count?, stats?, empty]

theorem count?_isSome_iff (h : r.Indexed) (key : EntityKey) :
    (r.count? key).isSome ↔ key ∈ r.keys := by
  rw [count?, Option.isSome_map]
  exact h.stats?_isSome_iff key

theorem count?_eq_lifetimes (r : Registry γ) (key : EntityKey) :
    r.count? key = r.index[key]?.bind fun i => (r.lifetimes[i]?).map fun e => e.2.exact.count := by
  rw [count?, stats?]
  cases r.index[key]? with
  | none => rfl
  | some i =>
    simp only [Option.bind_some, lifetimes, List.getElem?_map, Array.getElem?_toList, Option.map_map]
    rfl

theorem SameLifetimes.count? (h : r.SameLifetimes t) (key : EntityKey) :
    r.count? key = t.count? key := by
  rw [count?_eq_lifetimes, count?_eq_lifetimes, h.index, h.lifetimes]

theorem count?_register (h : r.Indexed) (key k : EntityKey) :
    (r.register key).count? k = if k = key then some ((r.count? key).getD 0) else r.count? k := by
  simp only [count?, stats?_register h]
  by_cases hk : k = key
  · subst hk
    cases hs : r.stats? k with
    | none => simp [EntityStats.totalCount, EntityStats.empty, Window.empty, Window.Exact.empty]
    | some s => simp
  · simp [hk]

theorem registerAll_indexed (h : r.Indexed) (keys : List EntityKey) :
    (keys.foldl register r).Indexed := by
  induction keys generalizing r with
  | nil => exact h
  | cons key keys ih => exact ih (register_indexed h key)

theorem count?_registerAll (h : r.Indexed) (keys : List EntityKey) (k : EntityKey) :
    (keys.foldl register r).count? k =
      if k ∈ keys then some ((r.count? k).getD 0) else r.count? k := by
  induction keys generalizing r with
  | nil => simp
  | cons key keys ih =>
    rw [List.foldl_cons, ih (register_indexed h key), count?_register h]
    by_cases hk : k = key
    · subst hk
      simp
    · simp [hk]

section Recording

variable [Draws γ]

theorem recordAll_append (r : Registry γ) (samples more : List Sample) :
    r.recordAll (samples ++ more) = (r.recordAll samples).recordAll more := List.foldl_append

theorem totalCount_changes (values : List Nat) (s : EntityStats γ) :
    ((values.map Change.value).foldl EntityStats.change s).totalCount =
      s.totalCount + values.length := by
  induction values generalizing s with
  | nil => rfl
  | cons v values ih =>
    have hone : (s.record v).totalCount = s.totalCount + 1 := rfl
    rw [List.map_cons, List.foldl_cons, ih, EntityStats.change, hone, List.length_cons]
    omega

theorem count?_recordAll (h : r.Indexed) (samples : List Sample) (k : EntityKey) :
    (r.recordAll samples).count? k =
      if k ∈ r.keys ∨ k ∈ samples.map (·.entity) then
        some ((r.count? k).getD 0 + samples.countP (·.entity = k))
      else none := by
  have hfresh : (r.statsOf k).totalCount = (r.count? k).getD 0 := by
    rw [statsOf, count?]
    cases r.stats? k with
    | none => rfl
    | some s => rfl
  have hvalues : ((samples.filter (·.entity = k)).map fun s => Change.value s.value) =
      ((samples.filter (·.entity = k)).map (·.value)).map Change.value := by
    rw [List.map_map]
    rfl
  rw [count?, stats?_recordAll h, hvalues]
  split_ifs with hk
  · rw [Option.map_some, totalCount_changes, hfresh, List.length_map, ← List.countP_eq_length_filter]
  · rfl

end Recording

end QuantileMonitor.Registry
