import Mathlib.Algebra.GroupWithZero.Nat
import Mathlib.Tactic.Common
import QuantileMonitor.Registry

/-!
# Slots and their index

The index and the slots of a registry are inverse to each other: a key is indexed at a position
exactly when the slot there carries it. Every operation keeps that, and with it an operation on one
key reads and changes the statistics of that key alone.
-/

namespace QuantileMonitor.Registry

open Quantile

variable {γ : Type}

def keys (r : Registry γ) : List EntityKey := r.slots.toList.map (·.1)

def stats? (r : Registry γ) (key : EntityKey) : Option (EntityStats γ) :=
  r.index[key]?.bind fun i => r.slots[i]?.map (·.2)

structure Indexed (r : Registry γ) : Prop where
  index_iff : ∀ (key : EntityKey) (i : Nat), r.index[key]? = some i ↔ r.keys[i]? = some key

theorem keys_getElem? (r : Registry γ) (i : Nat) : r.keys[i]? = r.slots[i]?.map (·.1) := by
  rw [keys, List.getElem?_map, Array.getElem?_toList]

theorem keys_length (r : Registry γ) : r.keys.length = r.slots.size := by
  rw [keys, List.length_map, Array.length_toList]

namespace Indexed

variable {r : Registry γ}

theorem of_same {t : Registry γ} (h : r.Indexed) (hi : t.index = r.index) (hk : t.keys = r.keys) :
    t.Indexed := by
  constructor
  intro key i
  rw [hi, hk]
  exact h.index_iff key i

theorem slot_iff (h : r.Indexed) (key : EntityKey) (i : Nat) :
    r.index[key]? = some i ↔ ∃ s, r.slots[i]? = some (key, s) := by
  rw [h.index_iff, keys_getElem?]
  constructor
  · intro hs
    obtain ⟨⟨k, s⟩, hks, rfl⟩ := Option.map_eq_some_iff.mp hs
    exact ⟨s, hks⟩
  · rintro ⟨s, hs⟩
    rw [hs]
    rfl

theorem mem_iff (h : r.Indexed) (key : EntityKey) : key ∈ r.index ↔ key ∈ r.keys := by
  rw [Std.HashMap.mem_iff_isSome_getElem?, Option.isSome_iff_exists, List.mem_iff_getElem?]
  simp only [h.index_iff]

theorem keys_nodup (h : r.Indexed) : r.keys.Nodup := by
  rw [List.nodup_iff_pairwise_ne, List.pairwise_iff_getElem]
  intro i j hi hj hij heq
  have hi' := (h.index_iff r.keys[i] i).mpr (List.getElem?_eq_getElem hi)
  have hj' := (h.index_iff r.keys[j] j).mpr (List.getElem?_eq_getElem hj)
  rw [heq, hj'] at hi'
  have := Option.some.inj hi'
  omega

theorem stats?_eq_some_iff (h : r.Indexed) (key : EntityKey) (s : EntityStats γ) :
    r.stats? key = some s ↔ (key, s) ∈ r.slots.toList := by
  rw [stats?, Option.bind_eq_some_iff, List.mem_iff_getElem?]
  constructor
  · rintro ⟨i, hi, hs⟩
    obtain ⟨t, ht⟩ := (h.slot_iff key i).mp hi
    rw [ht] at hs
    obtain rfl : t = s := Option.some.inj hs
    exact ⟨i, by rw [Array.getElem?_toList, ht]⟩
  · rintro ⟨i, hi⟩
    rw [Array.getElem?_toList] at hi
    exact ⟨i, (h.slot_iff key i).mpr ⟨s, hi⟩, by rw [hi]; rfl⟩

theorem stats?_isSome_iff (h : r.Indexed) (key : EntityKey) :
    (r.stats? key).isSome ↔ key ∈ r.keys := by
  rw [Option.isSome_iff_exists, keys, List.mem_map]
  constructor
  · rintro ⟨s, hs⟩
    exact ⟨(key, s), (h.stats?_eq_some_iff key s).mp hs, rfl⟩
  · rintro ⟨⟨k, s⟩, hks, rfl⟩
    exact ⟨s, (h.stats?_eq_some_iff k s).mpr hks⟩

theorem stats?_eq_none_iff (h : r.Indexed) (key : EntityKey) :
    r.stats? key = none ↔ key ∉ r.keys := by
  rw [← h.stats?_isSome_iff]
  simp

end Indexed

theorem empty_indexed (strategy : Strategy) (draws : EntityKey → γ × γ) (now : Instant) :
    (empty strategy draws now).Indexed := by
  constructor
  intro key i
  simp [empty, keys]

theorem register_of_mem {r : Registry γ} {key : EntityKey} (hm : key ∈ r.index) :
    r.register key = r := by
  simp [register, hm]

theorem register_of_not_mem {r : Registry γ} {key : EntityKey} (hm : key ∉ r.index) :
    r.register key =
      { r with
        slots := r.slots.push (key, .empty r.strategy (r.draws key))
        index := r.index.insert key r.slots.size } := by
  simp [register, hm]

theorem keys_register_of_not_mem {r : Registry γ} {key : EntityKey} (hm : key ∉ r.index) :
    (r.register key).keys = r.keys ++ [key] := by
  simp [register_of_not_mem hm, keys]

theorem register_indexed {r : Registry γ} (h : r.Indexed) (key : EntityKey) :
    (r.register key).Indexed := by
  by_cases hm : key ∈ r.index
  · rw [register_of_mem hm]
    exact h
  · have hfresh : key ∉ r.keys := fun hk => hm ((h.mem_iff key).mpr hk)
    constructor
    intro k i
    rw [keys_register_of_not_mem hm, register_of_not_mem hm]
    simp only [Std.HashMap.getElem?_insert, beq_iff_eq, List.getElem?_append, keys_length]
    by_cases hk : key = k
    · subst k
      have hold : r.keys[i]? ≠ some key := fun he => hfresh (List.mem_of_getElem? he)
      by_cases hi : i < r.slots.size
      · simp [hi, hold]
        omega
      · simp only [if_true, hi, if_false, Option.some.injEq]
        constructor
        · intro he
          simp [he]
        · intro he
          have := (List.getElem?_eq_some_iff.mp he).1
          simp at this
          omega
    · rw [if_neg hk, h.index_iff]
      by_cases hi : i < r.slots.size
      · rw [if_pos hi]
      · have hlen : r.keys.length ≤ i := by rw [keys_length]; omega
        rw [if_neg hi, List.getElem?_eq_none hlen]
        simp [List.getElem?_singleton, hk]

theorem mem_keys_register {r : Registry γ} (h : r.Indexed) (key k : EntityKey) :
    k ∈ (r.register key).keys ↔ k ∈ r.keys ∨ k = key := by
  by_cases hm : key ∈ r.index
  · rw [register_of_mem hm]
    have hk := (h.mem_iff key).mp hm
    constructor
    · exact Or.inl
    · rintro (hr | rfl)
      · exact hr
      · exact hk
  · rw [keys_register_of_not_mem hm, List.mem_append, List.mem_singleton]

theorem keys_prefix_register (r : Registry γ) (key : EntityKey) :
    r.keys <+: (r.register key).keys := by
  by_cases hm : key ∈ r.index
  · simp only [register_of_mem hm, List.prefix_rfl]
  · rw [keys_register_of_not_mem hm]
    exact List.prefix_append _ _

theorem stats?_register {r : Registry γ} (h : r.Indexed) (key k : EntityKey) :
    (r.register key).stats? k =
      if k = key then some ((r.stats? key).getD (.empty r.strategy (r.draws key)))
      else r.stats? k := by
  by_cases hm : key ∈ r.index
  · rw [register_of_mem hm]
    split_ifs with hk
    · subst k
      obtain ⟨s, hs⟩ := Option.isSome_iff_exists.mp
        ((h.stats?_isSome_iff key).mpr ((h.mem_iff key).mp hm))
      rw [hs]
      rfl
    · rfl
  · have hnone : r.stats? key = none :=
      (h.stats?_eq_none_iff key).mpr fun hk => hm ((h.mem_iff key).mpr hk)
    rw [register_of_not_mem hm]
    simp only [stats?, Std.HashMap.getElem?_insert, beq_iff_eq, eq_comm (a := key)]
    split_ifs with hk
    · simp only [stats?] at hnone
      simp [hnone]
    · cases hi : r.index[k]? with
      | none => rfl
      | some i =>
        obtain ⟨s, hs⟩ := (h.slot_iff k i).mp hi
        have hlt : i < r.slots.size := (Array.getElem?_eq_some_iff.mp hs).1
        simp [Array.getElem?_push, Nat.ne_of_lt hlt]

theorem totalCount_eq_sum (r : Registry γ) :
    r.totalCount = (r.slots.toList.map fun e => e.2.totalCount).sum := by
  rw [totalCount, ← Array.foldl_toList, List.sum_eq_foldl, List.foldl_map]

theorem totalCount_register (r : Registry γ) (key : EntityKey) :
    (r.register key).totalCount = r.totalCount := by
  by_cases hm : key ∈ r.index
  · rw [register_of_mem hm]
  · rw [register_of_not_mem hm]
    simp only [totalCount_eq_sum, Array.toList_push, List.map_append, List.sum_append]
    rfl

theorem update_of_index {r : Registry γ} {key : EntityKey} {i : Nat} (hi : r.index[key]? = some i)
    (f : EntityStats γ → EntityStats γ) :
    r.update key f = { r with slots := r.slots.modify i fun (k, stats) => (k, f stats) } := by
  simp only [update, hi]

theorem update_of_not_mem {r : Registry γ} {key : EntityKey} (hm : key ∉ r.index)
    (f : EntityStats γ → EntityStats γ) : r.update key f = r := by
  simp only [update, Std.HashMap.getElem?_eq_none hm]

theorem index_update (r : Registry γ) (key : EntityKey) (f : EntityStats γ → EntityStats γ) :
    (r.update key f).index = r.index := by
  unfold update
  split <;> rfl

theorem slots_update_getElem? {r : Registry γ} (h : r.Indexed) (key : EntityKey)
    (f : EntityStats γ → EntityStats γ) (i : Nat) :
    (r.update key f).slots[i]? =
      r.slots[i]?.map fun e => if e.1 = key then (e.1, f e.2) else e := by
  cases hi : r.index[key]? with
  | none =>
    rw [update_of_not_mem (by simpa using hi)]
    cases he : r.slots[i]? with
    | none => rfl
    | some e =>
      have hne : e.1 ≠ key := by
        intro hk
        have := (h.slot_iff key i).mpr ⟨e.2, by rw [he, ← hk]⟩
        simp [hi] at this
      simp [hne]
  | some j =>
    rw [update_of_index hi, Array.getElem?_modify]
    obtain ⟨s, hs⟩ := (h.slot_iff key j).mp hi
    split_ifs with hij
    · subst i
      rw [hs]
      simp
    · cases he : r.slots[i]? with
      | none => rfl
      | some e =>
        have hne : e.1 ≠ key := by
          intro hk
          have := (h.slot_iff key i).mpr ⟨e.2, by rw [he, ← hk]⟩
          rw [hi] at this
          exact hij (Option.some.inj this)
        simp [hne]

theorem keys_update {r : Registry γ} (h : r.Indexed) (key : EntityKey)
    (f : EntityStats γ → EntityStats γ) : (r.update key f).keys = r.keys := by
  apply List.ext_getElem?
  intro i
  rw [keys_getElem?, keys_getElem?, slots_update_getElem? h, Option.map_map]
  congr 1
  funext e
  simp only [Function.comp]
  split <;> rfl

theorem update_indexed {r : Registry γ} (h : r.Indexed) (key : EntityKey)
    (f : EntityStats γ → EntityStats γ) : (r.update key f).Indexed :=
  h.of_same (index_update r key f) (keys_update h key f)

theorem stats?_update {r : Registry γ} (h : r.Indexed) (key k : EntityKey)
    (f : EntityStats γ → EntityStats γ) :
    (r.update key f).stats? k = if k = key then (r.stats? k).map f else r.stats? k := by
  simp only [stats?, index_update]
  cases hi : r.index[k]? with
  | none => simp
  | some i =>
    obtain ⟨s, hs⟩ := (h.slot_iff k i).mp hi
    simp only [Option.bind_some, slots_update_getElem? h, hs, Option.map_some]
    split_ifs <;> rfl

theorem sum_map_modify {α : Type} (count : α → Nat) (f : α → α) (n : Nat)
    (hf : ∀ a, count (f a) = count a + n) (l : List α) (i : Nat) (hi : i < l.length) :
    ((l.modify i f).map count).sum = (l.map count).sum + n := by
  induction l generalizing i with
  | nil => exact absurd hi (Nat.not_lt_zero i)
  | cons a l ih =>
    cases i with
    | zero =>
      simp only [List.modify_zero_cons, List.map_cons, List.sum_cons, hf]
      omega
    | succ i =>
      have hrest := ih i (Nat.lt_of_succ_lt_succ hi)
      simp only [List.modify_succ_cons, List.map_cons, List.sum_cons]
      omega

theorem totalCount_update {r : Registry γ} {key : EntityKey} (hm : key ∈ r.index)
    (h : r.Indexed) (f : EntityStats γ → EntityStats γ) (n : Nat)
    (hf : ∀ s, (f s).totalCount = s.totalCount + n) :
    (r.update key f).totalCount = r.totalCount + n := by
  obtain ⟨i, hi⟩ := Option.isSome_iff_exists.mp (Std.HashMap.mem_iff_isSome_getElem?.mp hm)
  obtain ⟨s, hs⟩ := (h.slot_iff key i).mp hi
  have hlt : i < r.slots.toList.length := by
    rw [Array.length_toList]
    exact (Array.getElem?_eq_some_iff.mp hs).1
  rw [update_of_index hi]
  simp only [totalCount_eq_sum, Array.toList_modify]
  exact sum_map_modify _ _ n (fun e => hf e.2) _ i hlt

def statsOf (r : Registry γ) (key : EntityKey) : EntityStats γ :=
  (r.stats? key).getD (.empty r.strategy (r.draws key))

/-- What no operation changes, for a registry that came from another by calls. -/
structure Continues (t r : Registry γ) : Prop where
  strategy : t.strategy = r.strategy
  draws : t.draws = r.draws

theorem register_continues (r : Registry γ) (key : EntityKey) : (r.register key).Continues r := by
  unfold register
  split
  · exact ⟨rfl, rfl⟩
  · exact ⟨rfl, rfl⟩

theorem update_continues (r : Registry γ) (key : EntityKey) (f : EntityStats γ → EntityStats γ) :
    (r.update key f).Continues r := by
  unfold update
  split
  · exact ⟨rfl, rfl⟩
  · exact ⟨rfl, rfl⟩

theorem Continues.trans {t s r : Registry γ} (h₁ : t.Continues s) (h₂ : s.Continues r) :
    t.Continues r := ⟨h₁.strategy.trans h₂.strategy, h₁.draws.trans h₂.draws⟩

theorem statsOf_eq {t r : Registry γ} (h : t.Continues r) {key : EntityKey}
    (hs : t.stats? key = r.stats? key) : t.statsOf key = r.statsOf key := by
  rw [statsOf, statsOf, hs, h.strategy, h.draws]

section Recording

variable [Draws γ]

theorem record_indexed {r : Registry γ} (h : r.Indexed) (key : EntityKey) (v : Nat) :
    (r.record key v).Indexed :=
  update_indexed (register_indexed h key) key _

theorem keys_record {r : Registry γ} (h : r.Indexed) (key : EntityKey) (v : Nat) :
    (r.record key v).keys = (r.register key).keys :=
  keys_update (register_indexed h key) key _

theorem stats?_record {r : Registry γ} (h : r.Indexed) (key k : EntityKey) (v : Nat) :
    (r.record key v).stats? k =
      if k = key then some (((r.stats? key).getD (.empty r.strategy (r.draws key))).record v)
      else r.stats? k := by
  rw [record, stats?_update (register_indexed h key), stats?_register h]
  split_ifs <;> rfl

theorem totalCount_record {r : Registry γ} (h : r.Indexed) (key : EntityKey) (v : Nat) :
    (r.record key v).totalCount = r.totalCount + 1 := by
  have hk := (mem_keys_register h key key).mpr (Or.inr rfl)
  have hm := ((register_indexed h key).mem_iff key).mpr hk
  rw [record, totalCount_update hm (register_indexed h key) _ 1 (fun _ => rfl), totalCount_register]

end Recording

theorem keys_resetIntervals (r : Registry γ) (now : Instant) :
    (r.resetIntervals now).keys = r.keys := by
  simp [keys, resetIntervals]

theorem resetIntervals_indexed {r : Registry γ} (h : r.Indexed) (now : Instant) :
    (r.resetIntervals now).Indexed :=
  h.of_same rfl (keys_resetIntervals r now)

theorem stats?_resetIntervals (r : Registry γ) (now : Instant) (k : EntityKey) :
    (r.resetIntervals now).stats? k = (r.stats? k).map (·.resetInterval) := by
  simp only [stats?, resetIntervals, Array.getElem?_map]
  cases r.index[k]? with
  | none => rfl
  | some i => cases hi : r.slots[i]? <;> simp [hi]

theorem totalCount_resetIntervals (r : Registry γ) (now : Instant) :
    (r.resetIntervals now).totalCount = r.totalCount := by
  simp only [totalCount_eq_sum, resetIntervals, Array.toList_map, List.map_map]
  rfl

end QuantileMonitor.Registry
