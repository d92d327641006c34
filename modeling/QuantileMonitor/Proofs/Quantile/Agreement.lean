import QuantileMonitor.Proofs.Quantile.Arrivals
import QuantileMonitor.Proofs.Quantile.Line

/-!
# Where histogram and reservoir agree

A histogram walks its counts up to a rank, a reservoir reads its ordered samples, and past the last rank
the one is at its clamp and the other at its last value. As long as both hold all values they have the
same value at each rank, and no position leads past the last one.
-/

namespace QuantileMonitor.Quantile

open Scalar

def InRange {α : Type} [LT α] [Scalar α] (n : Nat) (p : Nat × α) : Prop :=
  p.1 < n ∧ (ofNat 0 < p.2 → p.1 + 1 < n)

theorem position_inRange_rat (q : Rat) {n : Nat} (hn : 0 < n) : InRange n (position q n) := by
  have hlast : unit q * (n - 1 : Nat) ≤ (n - 1 : Nat) :=
    mul_le_of_le_one_left (Nat.cast_nonneg _) (unit_le_one q)
  simp only [InRange, position, ofNat_rat, whole_rat, Nat.cast_zero]
  exact floor_lt_ranks hn hlast

theorem position_inRange_double (q : Float) {n : Nat} (hn : 0 < n) (hfit : n ≤ 2 ^ 53) :
    InRange n (position q n) :=
  ⟨Double.position_lt q hn hfit, Double.position_next q hn hfit⟩

section Scalars

variable {α : Type} [Add α] [Sub α] [Mul α] [LT α] [DecidableLT α] [Scalar α]

theorem readAt_congr {f g : Nat → Nat} {n : Nat} (h : ∀ i < n, f i = g i) {p : Nat × α}
    (hp : InRange n p) : readAt f p = readAt g p := by
  rw [readAt, readAt, h p.1 hp.1]
  split
  next hbetween => rw [h _ (hp.2 hbetween)]
  next => rfl

end Scalars

namespace Reservoir

variable {γ : Type} {r : Reservoir γ} {c : Nat} {values : List Nat}

def valueAtRank (r : Reservoir γ) (rank : Nat) : Nat :=
  r.ordered.getD rank (r.ordered.back?.getD 0)

theorem foldl_insert_keeps [Draws γ] (c : Nat) (draws : γ) (values : List Nat) :
    (values.foldl insert (empty c draws)).Keeps c values := by
  induction values using List.reverseRecOn with
  | nil => exact .empty c draws
  | append_singleton values v ih =>
    rw [List.foldl_append]
    exact ih.insert v

theorem Keeps.ordered_eq_ranked (h : r.Keeps c values) (hroom : values.length ≤ c) :
    r.ordered = (ranked values).toArray := by
  have hperm := h.perm (h.seen.trans_le hroom)
  have hranked : ranked r.samples.toList = ranked values :=
    ranked_eq (ranked_ascending values) ((ranked_perm values).trans hperm.symm)
  rw [h.ordered, ascending]
  exact congrArg List.toArray hranked

theorem Keeps.valueAtRank (h : r.Keeps c values) (hroom : values.length ≤ c) {rank : Nat}
    (hrank : rank < values.length) : (ranked values)[rank]? = some (r.valueAtRank rank) := by
  rw [← length_ranked] at hrank
  rw [Reservoir.valueAtRank, h.ordered_eq_ranked hroom, List.getElem?_eq_getElem hrank,
    Array.getD_eq_getD_getElem?, List.getElem?_toArray, List.getElem?_eq_getElem hrank, Option.getD_some]

theorem Keeps.quantile_eq_readAt {α : Type} [Add α] [Sub α] [Mul α] [LT α] [DecidableLT α] [Scalar α]
    (h : r.Keeps c values) (hroom : values.length ≤ c) (q : α) :
    r.quantile q = if values.length = 0 then none
      else some (readAt r.valueAtRank (position q values.length)) := by
  have hsize : r.ordered.size = values.length := by
    rw [h.ordered_eq_ranked hroom, List.size_toArray, length_ranked]
  have hread : quantileOf r.ordered q = if r.ordered.isEmpty then none
      else some (readAt r.valueAtRank (position q r.ordered.size)) := rfl
  rw [quantile_eq_quantileOf, hread, hsize]
  simp only [Array.isEmpty_iff_size_eq_zero, hsize]

end Reservoir

variable {γ : Type} [Draws γ] {c m : Nat} {values others : List Nat}

/-- The same values in any two orders, within the capacity of a reservoir and the clamp of a histogram,
have both answer alike: at every rank, at every position in range, and so for every quantile. -/
theorem histogram_agrees_reservoir (hperm : values.Perm others) (hroom : values.length ≤ c)
    (hclamp : ∀ v ∈ values, v ≤ m) (draws : γ) :
    let r := values.foldl Reservoir.insert (.empty c draws)
    let h := Histogram.fill m others
    let n := values.length
    (∀ i < n, (ranked values)[i]? = some (h.valueAtRank i) ∧ h.valueAtRank i = r.valueAtRank i) ∧
      (∀ q : Rat, h.quantile q = r.quantile q) ∧
      (n ≤ 2 ^ 53 → ∀ q : Float, h.quantile q = r.quantile q) ∧
      ∀ {α : Type} [Add α] [Sub α] [Mul α] [LT α] [DecidableLT α] [Scalar α],
        (∀ p : Nat × α, InRange n p → readAt h.valueAtRank p = readAt r.valueAtRank p) ∧
          ∀ q : α, (n ≠ 0 → InRange n (position q n)) → h.quantile q = r.quantile q := by
  intro r h n
  have hkeeps : r.Keeps c values := Reservoir.foldl_insert_keeps c draws values
  have htally : Histogram.Tallies h values := by
    have hmin : others.map (min · m) = others.map id :=
      List.map_congr_left fun v hv => Nat.min_eq_left (hclamp v (hperm.mem_iff.mpr hv))
    have hfill := (Histogram.fill_standsFor m others).tallies
    rw [hmin, List.map_id] at hfill
    exact hfill.perm hperm.symm
  have hvalue : ∀ i < n, h.valueAtRank i = r.valueAtRank i := by
    intro i hi
    have hh := htally.valueAtRank hi
    have hr := hkeeps.valueAtRank hroom hi
    exact Option.some.inj (hh.symm.trans hr)
  have hquantile : ∀ {α : Type} [Add α] [Sub α] [Mul α] [LT α] [DecidableLT α] [Scalar α] (q : α),
      (n ≠ 0 → InRange n (position q n)) → h.quantile q = r.quantile q := by
    intro α _ _ _ _ _ _ q hrange
    rw [Histogram.quantile, hkeeps.quantile_eq_readAt hroom, htally.count]
    split
    next => rfl
    next hpos => rw [readAt_congr hvalue (hrange hpos)]
  refine ⟨fun i hi => ⟨htally.valueAtRank hi, hvalue i hi⟩, fun q => ?_, fun hfit q => ?_, ?_⟩
  · exact hquantile q fun hpos => position_inRange_rat q (Nat.pos_of_ne_zero hpos)
  · exact hquantile q fun hpos => position_inRange_double q (Nat.pos_of_ne_zero hpos) hfit
  · intro α _ _ _ _ _ _
    exact ⟨fun p hp => readAt_congr hvalue hp, hquantile⟩

theorem histogram_agrees_reservoir_three :
    let values := [2, 0, 1]
    let others := [1, 2, 0]
    let r := values.foldl Reservoir.insert (.empty 3 ([] : List Nat))
    let h := Histogram.fill 2 others
    values.Perm others ∧ values.length ≤ 3 ∧ (∀ v ∈ values, v ≤ 2) ∧
      (∀ q : Rat, h.quantile q = r.quantile q) ∧ ∀ q : Float, h.quantile q = r.quantile q := by
  intro values others r h
  have hperm : values.Perm others := by decide
  have hroom : values.length ≤ 3 := by decide
  have hclamp : ∀ v ∈ values, v ≤ 2 := by decide
  obtain ⟨-, hrat, hdouble, -⟩ := histogram_agrees_reservoir hperm hroom hclamp ([] : List Nat)
  exact ⟨hperm, hroom, hclamp, hrat, hdouble (by decide)⟩

end QuantileMonitor.Quantile
