import Mathlib.Data.List.GetD
import Mathlib.Data.List.Perm.Subperm
import Mathlib.Data.List.Nodup
import QuantileMonitor.Proofs.Quantile.Summary

/-!
# What any draws leave in a reservoir

Reservoirs take values, are emptied and copied, and copies go on by themselves; other draws may come at
any time. Whatever is drawn, a reservoir holds arrivals since its last reset, each at most once and as
many as there is room for. Copying puts them in order, and the mark of that order is never out of date,
so quantiles do not depend on whether they are read with or without sorting.
-/

namespace QuantileMonitor.Quantile.Reservoir

variable {γ : Type} {r : Reservoir γ} {c : Nat} {values : List Nat}

def ordered (r : Reservoir γ) : Array Nat := if r.sorted then r.samples else ascending r.samples

/-- Arrivals at different positions make up the samples. -/
structure Keeps (c : Nat) (r : Reservoir γ) (values : List Nat) : Prop where
  capacity : r.capacity = c
  seen : r.seen = values.length
  arrivals : ∃ positions : List Nat, positions.Nodup ∧
    positions.length = min values.length c ∧ (∀ i ∈ positions, i < values.length) ∧
    r.samples.toList = positions.map fun i => values.getD i 0
  sorted : r.sorted = true → r.samples.toList.Pairwise (· ≤ ·)

theorem ascending_eq_ranked (samples : Array Nat) : (ascending samples).toList = ranked samples.toList :=
  rfl

theorem ascending_eq_self {samples : Array Nat} (h : samples.toList.Pairwise (· ≤ ·)) :
    ascending samples = samples := by
  apply Array.toList_inj.mp
  rw [ascending_eq_ranked]
  exact ranked_eq h (List.Perm.refl _)

theorem samples_snapshot (r : Reservoir γ) : r.snapshot.samples = r.ordered := rfl

theorem map_getD_append (values : List Nat) (v : Nat) {positions : List Nat}
    (h : ∀ i ∈ positions, i < values.length) :
    (positions.map fun i => (values ++ [v]).getD i 0) = positions.map fun i => values.getD i 0 :=
  List.map_congr_left fun i hi => List.getD_append _ _ _ _ (h i hi)

theorem getD_length_append (values : List Nat) (v : Nat) :
    (values ++ [v]).getD values.length 0 = v := by
  rw [List.getD_append_right _ _ _ _ (Nat.le_refl _), Nat.sub_self]
  rfl

namespace Keeps

theorem of_empty (hcapacity : r.capacity = c) (hseen : r.seen = 0) (hsamples : r.samples = #[]) :
    r.Keeps c [] where
  capacity := hcapacity
  seen := hseen
  arrivals := by
    refine ⟨[], List.nodup_nil, (Nat.zero_min _).symm, ?_, ?_⟩
    · intro i hi
      exact absurd hi List.not_mem_nil
    · rw [hsamples]
      rfl
  sorted _ := by
    rw [hsamples]
    exact List.Pairwise.nil

theorem empty (c : Nat) (draws : γ) : (Reservoir.empty c draws).Keeps c [] := of_empty rfl rfl rfl

theorem reset (h : r.Keeps c values) : r.reset.Keeps c [] := of_empty h.capacity rfl rfl

theorem redraw (h : r.Keeps c values) (draws : γ) : { r with draws }.Keeps c values :=
  ⟨h.capacity, h.seen, h.arrivals, h.sorted⟩

theorem size (h : r.Keeps c values) : r.samples.size = min r.seen c := by
  obtain ⟨positions, -, hlength, -, hsamples⟩ := h.arrivals
  rw [← Array.length_toList, hsamples, List.length_map, hlength, h.seen]

theorem insert [Draws γ] (h : r.Keeps c values) (v : Nat) :
    (r.insert v).Keeps c (values ++ [v]) := by
  have hsize := h.size
  rw [h.seen] at hsize
  obtain ⟨positions, hnodup, hlength, hbound, hsamples⟩ := h.arrivals
  have hfresh : values.length ∉ positions := fun hn => Nat.lt_irrefl _ (hbound _ hn)
  by_cases hroom : r.samples.size < r.capacity
  · rw [insert_of_room r v hroom]
    rw [h.capacity] at hroom
    refine ⟨h.capacity, by rw [h.seen, List.length_append]; rfl, ?_, fun hsorted => by cases hsorted⟩
    refine ⟨positions ++ [values.length], ?_, ?_, ?_, ?_⟩
    · rw [← List.concat_eq_append]
      exact hnodup.concat hfresh
    · rw [List.length_append, List.length_append, hlength, List.length_singleton, List.length_singleton]
      omega
    · intro i hi
      rw [List.length_append, List.length_singleton]
      rcases List.mem_append.mp hi with hold | hnew
      · exact Nat.lt_succ_of_lt (hbound i hold)
      · rw [List.mem_singleton.mp hnew]
        exact Nat.lt_succ_self _
    · rw [List.map_append, map_getD_append values v hbound, ← hsamples, Array.toList_push,
        List.map_singleton, getD_length_append]
  · rw [insert_of_full r v hroom]
    rw [h.capacity] at hroom
    refine ⟨h.capacity, by rw [h.seen, List.length_append]; rfl, ?_, fun hsorted => by cases hsorted⟩
    generalize (Draws.below (r.seen + 1) r.draws).1 = slot
    refine ⟨positions.set slot values.length, hnodup.set hfresh, ?_, ?_, ?_⟩
    · rw [List.length_set, hlength, List.length_append, List.length_singleton]
      omega
    · intro i hi
      rw [List.length_append, List.length_singleton]
      rcases List.mem_or_eq_of_mem_set hi with hold | rfl
      · exact Nat.lt_succ_of_lt (hbound i hold)
      · exact Nat.lt_succ_self _
    · rw [place, Array.toList_setIfInBounds, hsamples, List.map_set, map_getD_append values v hbound,
        getD_length_append]

theorem ordered (h : r.Keeps c values) : r.ordered = ascending r.samples := by
  rw [Reservoir.ordered]
  split
  next hsorted => exact (ascending_eq_self (h.sorted hsorted)).symm
  next => rfl

theorem snapshot (h : r.Keeps c values) : r.snapshot.Keeps c values := by
  have hsamples := r.samples_snapshot.trans h.ordered
  refine ⟨h.capacity, h.seen, ?_, fun _ => ?_⟩
  · obtain ⟨positions, hnodup, hlength, hbound, hkept⟩ := h.arrivals
    -- The order of the samples is an order of the positions that they come from.
    have hperm : (ranked r.samples.toList).Perm (positions.map fun i => values.getD i 0) := by
      rw [← hkept]
      exact ranked_perm _
    have hrel : List.Forall₂ (fun v i => v = values.getD i 0)
        (positions.map fun i => values.getD i 0) positions :=
      List.forall₂_map_left_iff.mpr (List.forall₂_same.mpr fun _ _ => rfl)
    obtain ⟨order, hvalues, horder⟩ := List.perm_comp_forall₂ hperm hrel
    refine ⟨order, horder.nodup_iff.mpr hnodup, horder.length_eq.trans hlength,
      fun i hi => hbound i (horder.mem_iff.mp hi), ?_⟩
    rw [hsamples, ascending_eq_ranked]
    exact List.forall₂_eq_eq_eq ▸ List.forall₂_map_right_iff.mpr hvalues
  · rw [hsamples]
    exact ranked_ascending _

theorem subperm (h : r.Keeps c values) : r.samples.toList.Subperm values := by
  obtain ⟨positions, hnodup, -, hbound, hsamples⟩ := h.arrivals
  obtain ⟨order, hperm, hsublist⟩ : positions.Subperm (List.range values.length) :=
    hnodup.subperm fun i hi => List.mem_range.mpr (hbound i hi)
  have hall := hsublist.map fun i => values.getD i 0
  rw [map_getD_range] at hall
  rw [hsamples]
  exact ⟨_, hperm.map _, hall⟩

theorem perm (h : r.Keeps c values) (hroom : r.seen ≤ c) :
    r.samples.toList.Perm values := by
  refine h.subperm.perm_of_length_le ?_
  have hlength : r.samples.toList.length = min r.seen c := h.size
  have hseen := h.seen
  omega

end Keeps

inductive Step (ι γ : Type)
  | insert (target : ι) (v : Nat)
  | reset (target : ι)
  | snapshot (source target : ι)
  | redraw (target : ι) (draws : γ)

namespace Step

variable {ι : Type}

def target : Step ι γ → ι
  | insert target _ => target
  | reset target => target
  | snapshot _ target => target
  | redraw target _ => target

def reservoir [Draws γ] (pool : ι → Reservoir γ) : Step ι γ → Reservoir γ
  | insert target v => (pool target).insert v
  | reset target => (pool target).reset
  | snapshot source _ => (pool source).snapshot
  | redraw target draws => { pool target with draws }

def stream (streams : ι → List Nat) : Step ι γ → List Nat
  | insert target v => streams target ++ [v]
  | reset _ => []
  | snapshot source _ => streams source
  | redraw target _ => streams target

end Step

section Run

variable {ι : Type} [Draws γ] {pool : ι → Reservoir γ} {streams : ι → List Nat}

theorem reservoir_keeps (h : ∀ i, (pool i).Keeps c (streams i)) (s : Step ι γ) :
    (s.reservoir pool).Keeps c (s.stream streams) := by
  cases s with
  | insert target v => exact (h target).insert v
  | reset target => exact (h target).reset
  | snapshot source target => exact (h source).snapshot
  | redraw target draws => exact (h target).redraw draws

variable [DecidableEq ι]

def apply (pool : ι → Reservoir γ) (s : Step ι γ) : ι → Reservoir γ :=
  Function.update pool s.target (s.reservoir pool)

def track (streams : ι → List Nat) (s : Step ι γ) : ι → List Nat :=
  Function.update streams s.target (s.stream streams)

theorem foldl_keeps (h : ∀ i, (pool i).Keeps c (streams i)) (steps : List (Step ι γ)) :
    ∀ i, (steps.foldl apply pool i).Keeps c (steps.foldl track streams i) := by
  induction steps generalizing pool streams with
  | nil => exact h
  | cons s steps ih => exact ih fun i => update_related h (reservoir_keeps h s) i

theorem foldl_apply_of_ne {i : ι} {steps : List (Step ι γ)} (h : ∀ s ∈ steps, s.target ≠ i) :
    steps.foldl apply pool i = pool i := by
  induction steps generalizing pool with
  | nil => rfl
  | cons s steps ih =>
    have hne : i ≠ s.target := (h s List.mem_cons_self).symm
    rw [List.foldl_cons, ih fun t ht => h t (List.mem_cons_of_mem s ht), apply,
      Function.update_of_ne hne]

end Run

section Answers

variable {α : Type} [Add α] [Sub α] [Mul α] [LT α] [DecidableLT α] [Scalar α]

theorem quantile_eq_quantileOf (r : Reservoir γ) (q : α) : r.quantile q = quantileOf r.ordered q := rfl

variable {ι : Type} [DecidableEq ι] [Draws γ]

/-- After every run, and whatever was drawn in it, each reservoir has counted the arrivals since its last
reset and holds as many of them as there is room for. They stand at different positions of the stream, and
are all of it while the count is within the capacity. Samples marked as sorted ascend, so they may be read
as they are. A snapshot has the count of its source and answers like it, until a step takes its place. -/
theorem run_keeps_arrivals (c : Nat) (draws : ι → γ) (steps : List (Step ι γ)) :
    let pool := steps.foldl apply fun i => empty c (draws i)
    let streams := steps.foldl track fun _ => []
    (∀ i, let r := pool i
      let values := streams i
      r.seen = values.length ∧ r.samples.size = min r.seen c ∧
        (∃ positions : List Nat, positions.Nodup ∧ (∀ p ∈ positions, p < values.length) ∧
          r.samples.toList = positions.map fun p => values.getD p 0) ∧
        r.samples.toList.Subperm values ∧
        (r.seen ≤ c → r.samples.toList.Perm values) ∧
        (r.sorted = true → r.samples.toList.Pairwise (· ≤ ·)) ∧
        (r.sorted = true → ∀ q : α, quantileOf r.samples q = quantileOf (ascending r.samples) q) ∧
        ∀ q : α, r.quantile q = quantileOf (ascending r.samples) q) ∧
      ∀ (i j : ι) (later : List (Step ι γ)), (∀ s ∈ later, s.target ≠ j) →
        let copy := later.foldl apply (apply pool (.snapshot i j)) j
        copy.sorted = true ∧ copy.seen = (pool i).seen ∧
          copy.samples.size = (pool i).samples.size ∧
          ∀ q : α, copy.quantile q = (pool i).quantile q := by
  intro pool streams
  have hpool : ∀ i, (pool i).Keeps c (streams i) := foldl_keeps (fun i => .empty c (draws i)) steps
  constructor
  · intro i
    have h := hpool i
    obtain ⟨positions, hnodup, -, hbound, hsamples⟩ := h.arrivals
    refine ⟨h.seen, h.size, ⟨positions, hnodup, hbound, hsamples⟩, h.subperm, h.perm, h.sorted, ?_, ?_⟩
    · intro hsorted q
      rw [ascending_eq_self (h.sorted hsorted)]
    · intro q
      rw [quantile_eq_quantileOf, h.ordered]
  · intro i j later hlater
    have hcopy : later.foldl apply (apply pool (.snapshot i j)) j = (pool i).snapshot := by
      rw [foldl_apply_of_ne hlater]
      exact Function.update_self _ _ _
    have hsnapshot := (hpool i).snapshot.size
    rw [hcopy]
    exact ⟨rfl, rfl, hsnapshot.trans (hpool i).size.symm, (pool i).quantile_snapshot⟩

end Answers

end QuantileMonitor.Quantile.Reservoir
