import QuantileMonitor.Proofs.Registry.Slots

/-!
# Lifetime windows

Recording reads and writes lifetime windows apart from interval windows. Two registries with the same
lifetime windows in the same slots stay so under the same samples, and a reset on one side only does
not tell them apart.
-/

namespace QuantileMonitor

variable {γ : Type}

def Snapshot.lifetimes (s : Snapshot γ) : List (EntityKey × Window γ) :=
  s.entities.map fun e => (e.1, e.2.lifetime)

namespace Registry

def lifetimes (r : Registry γ) : List (EntityKey × Window γ) :=
  r.slots.toList.map fun e => (e.1, e.2.lifetime)

structure SameLifetimes (r t : Registry γ) : Prop where
  strategy : r.strategy = t.strategy
  draws : r.draws = t.draws
  index : r.index = t.index
  lifetimes : r.lifetimes = t.lifetimes

namespace SameLifetimes

variable {r t : Registry γ}

theorem refl (r : Registry γ) : r.SameLifetimes r := ⟨rfl, rfl, rfl, rfl⟩

theorem symm (h : r.SameLifetimes t) : t.SameLifetimes r :=
  ⟨h.strategy.symm, h.draws.symm, h.index.symm, h.lifetimes.symm⟩

theorem trans {u : Registry γ} (h : r.SameLifetimes t) (g : t.SameLifetimes u) :
    r.SameLifetimes u :=
  ⟨h.strategy.trans g.strategy, h.draws.trans g.draws, h.index.trans g.index,
    h.lifetimes.trans g.lifetimes⟩

theorem keys (h : r.SameLifetimes t) : r.keys = t.keys := by
  have hfirst := congrArg (List.map (·.1)) h.lifetimes
  simp only [Registry.lifetimes, List.map_map] at hfirst
  exact hfirst

theorem totalCount (h : r.SameLifetimes t) : r.totalCount = t.totalCount := by
  have hcounts := congrArg (List.map fun e => e.2.exact.count) h.lifetimes
  simp only [Registry.lifetimes, List.map_map] at hcounts
  rw [totalCount_eq_sum, totalCount_eq_sum]
  exact congrArg List.sum hcounts

theorem snapshot (h : r.SameLifetimes t) (now : Instant) :
    (r.snapshot now).lifetimes = (t.snapshot now).lifetimes := by
  have hsorted : ∀ u : Registry γ, (u.snapshot now).lifetimes =
      (u.lifetimes.map fun e => (e.1, e.2.snapshot)).mergeSort fun a b => a.1.rank ≤ b.1.rank := by
    intro u
    let slots := u.slots.toList.map fun e => (e.1, e.2.snapshot)
    have hmap : (slots.map fun e => (e.1, e.2.lifetime)) = u.lifetimes.map fun e => (e.1, e.2.snapshot) := by
      rw [Registry.lifetimes, List.map_map, List.map_map]
      rfl
    rw [← hmap]
    exact List.map_mergeSort fun _ _ _ _ => rfl
  rw [hsorted, hsorted, h.lifetimes]

theorem size (h : r.SameLifetimes t) : r.slots.size = t.slots.size := by
  rw [← keys_length, ← keys_length, h.keys]

end SameLifetimes

theorem resetIntervals_sameLifetimes (r : Registry γ) (now : Instant) :
    (r.resetIntervals now).SameLifetimes r := by
  refine ⟨rfl, rfl, rfl, ?_⟩
  simp [lifetimes, resetIntervals, EntityStats.resetInterval]

theorem register_sameLifetimes {r t : Registry γ} (h : r.SameLifetimes t) (key : EntityKey) :
    (r.register key).SameLifetimes (t.register key) := by
  by_cases hm : key ∈ r.index
  · have hm' : key ∈ t.index := h.index ▸ hm
    rw [register_of_mem hm, register_of_mem hm']
    exact h
  · have hm' : key ∉ t.index := h.index ▸ hm
    rw [register_of_not_mem hm, register_of_not_mem hm']
    refine ⟨h.strategy, h.draws, by simp only [h.index, h.size], ?_⟩
    have hlifetimes := h.lifetimes
    simp only [lifetimes] at hlifetimes ⊢
    simp [hlifetimes, h.strategy, h.draws]

theorem map_modify {α β : Type} {f : α → α} {g : α → β} {f' : β → β}
    (hfg : ∀ a, g (f a) = f' (g a)) (l : List α) (i : Nat) :
    (l.modify i f).map g = (l.map g).modify i f' := by
  induction l generalizing i with
  | nil => simp
  | cons a l ih =>
    cases i with
    | zero => simp [hfg]
    | succ i => simp [ih]

theorem update_sameLifetimes {r t : Registry γ} (h : r.SameLifetimes t) (key : EntityKey)
    {f : EntityStats γ → EntityStats γ} {g : Window γ → Window γ}
    (hf : ∀ s, (f s).lifetime = g s.lifetime) :
    (r.update key f).SameLifetimes (t.update key f) := by
  cases hi : r.index[key]? with
  | none =>
    have hi' : t.index[key]? = none := h.index ▸ hi
    simp only [update, hi, hi']
    exact h
  | some i =>
    have hi' : t.index[key]? = some i := h.index ▸ hi
    rw [update_of_index hi, update_of_index hi']
    have hmodify : ∀ u : Registry γ,
        (u.slots.toList.modify i fun e => (e.1, f e.2)).map (fun e => (e.1, e.2.lifetime)) =
          u.lifetimes.modify i fun e => (e.1, g e.2) := by
      intro u
      exact map_modify (fun e => by simp only [hf]) u.slots.toList i
    refine ⟨h.strategy, h.draws, h.index, ?_⟩
    have hr := hmodify r
    have ht := hmodify t
    rw [h.lifetimes] at hr
    simp only [lifetimes, Array.toList_modify]
    exact hr.trans ht.symm

section Recording

variable [Draws γ]

theorem record_sameLifetimes {r t : Registry γ} (h : r.SameLifetimes t) (key : EntityKey)
    (v : Nat) : (r.record key v).SameLifetimes (t.record key v) :=
  update_sameLifetimes (register_sameLifetimes h key) key (g := (·.record v)) fun _ => rfl

theorem recordAll_sameLifetimes {r t : Registry γ} (h : r.SameLifetimes t)
    (samples : List Sample) : (r.recordAll samples).SameLifetimes (t.recordAll samples) := by
  induction samples generalizing r t with
  | nil => exact h
  | cons s samples ih => exact ih (record_sameLifetimes h s.entity s.value)

end Recording

end Registry

end QuantileMonitor
