import QuantileMonitor.Proofs.Double
import QuantileMonitor.Proofs.Quantile.Contents
import QuantileMonitor.Proofs.Quantile.Pool
import QuantileMonitor.Proofs.Quantile.Sampling
import QuantileMonitor.Quantile.Estimator

/-!
# What an estimator stands for

Whatever the strategy, an estimator stands for the values that it took since it was built or reset.
These alone decide what it answers, but for a reservoir that had to leave some of them out.
-/

namespace QuantileMonitor.Quantile

variable {γ : Type}

namespace Reservoir

structure Samples (r : Reservoir γ) (values : List Nat) : Prop where
  seen : r.seen = values.length
  size : r.samples.size = min r.capacity values.length
  sorted : r.sorted = values.isEmpty
  all : values.length ≤ r.capacity → r.samples = values.toArray

variable {r : Reservoir γ} {values : List Nat}

theorem empty_samples (capacity : Nat) (draws : γ) : (empty capacity draws).Samples [] :=
  ⟨rfl, (Nat.min_zero capacity).symm, rfl, fun _ => rfl⟩

theorem reset_samples (r : Reservoir γ) : r.reset.Samples [] :=
  ⟨rfl, (Nat.min_zero r.capacity).symm, rfl, fun _ => rfl⟩

theorem Samples.insert [Draws γ] (h : r.Samples values) (v : Nat) :
    (r.insert v).Samples (values ++ [v]) where
  seen := by rw [seen_insert, h.seen, List.length_append, List.length_singleton]
  size := by
    rw [size_insert, capacity_insert, h.size, List.length_append, List.length_singleton]
    split <;> omega
  sorted := by
    have hfalse : (values ++ [v]).isEmpty = false := by simp
    rw [hfalse]
    by_cases hroom : r.samples.size < r.capacity
    · rw [insert_of_room r v hroom]
    · rw [insert_of_full r v hroom]
  all := by
    intro hall
    rw [capacity_insert, List.length_append, List.length_singleton] at hall
    have hroom : r.samples.size < r.capacity := by
      rw [h.size]
      omega
    rw [insert_of_room r v hroom, h.all (by omega), List.push_toArray]

section Answers

variable {α : Type} [Add α] [Sub α] [Mul α] [LT α] [DecidableLT α] [Scalar α]

theorem quantile_snapshot (r : Reservoir γ) (q : α) : r.snapshot.quantile q = r.quantile q := rfl

theorem Samples.quantile_eq {r' : Reservoir γ} (h : r.Samples values) (h' : r'.Samples values)
    (hcapacity : values.length ≤ r.capacity) (hcapacity' : values.length ≤ r'.capacity) (q : α) :
    r.quantile q = r'.quantile q := by
  rw [quantile, quantile, h.sorted, h'.sorted, h.all hcapacity, h'.all hcapacity']

theorem isSome_quantileOf (sorted : Array Nat) (q : α) :
    (quantileOf sorted q).isSome ↔ 0 < sorted.size := by
  rw [quantileOf, Nat.pos_iff_ne_zero, ne_eq, ← Array.isEmpty_iff_size_eq_zero]
  by_cases hempty : sorted.isEmpty
  · simp only [hempty, if_true, Option.isSome_none, not_true, Bool.false_eq_true]
  · simp only [hempty, if_false, Option.isSome_some, not_false_eq_true, Bool.false_eq_true]

def lookUp (sorted : Array Nat) (q : Float) : Option Float :=
  let (rank, t) := position q sorted.size
  sorted[rank]?.map fun lo =>
    if Scalar.ofNat 0 < t then
      interpolate (Scalar.ofNat lo) (Scalar.ofNat (sorted[rank + 1]?.getD lo)) t
    else Scalar.ofNat lo

/-- Among as many values as doubles can count nothing beyond them is asked for, but the value after the
last, and that is the last itself. -/
theorem quantileOf_eq_lookUp (sorted : Array Nat) (h : sorted.size ≤ 2 ^ 53) (q : Float) :
    quantileOf sorted q = lookUp sorted q := by
  have hlt : 0 < sorted.size → (position q sorted.size).1 < sorted.size :=
    fun hpos => Double.position_lt q hpos h
  rw [quantileOf, lookUp]
  generalize position q sorted.size = p at hlt
  obtain ⟨rank, t⟩ := p
  dsimp only at hlt ⊢
  by_cases hempty : sorted.isEmpty
  · have hsize := Array.isEmpty_iff_size_eq_zero.mp hempty
    have hnone : sorted[rank]? = none := Array.getElem?_eq_none (by omega)
    rw [if_pos hempty, hnone, Option.map_none]
  · have hrank : rank < sorted.size :=
      hlt (Nat.pos_of_ne_zero (mt Array.isEmpty_iff_size_eq_zero.mpr hempty))
    have hlo : sorted.getD rank (sorted.back?.getD 0) = sorted[rank] := by
      rw [Array.getD_eq_getD_getElem?, Array.getElem?_eq_getElem hrank, Option.getD_some]
    have hhi : sorted.getD (rank + 1) (sorted.back?.getD 0) =
        sorted[rank + 1]?.getD sorted[rank] := by
      rw [Array.getD_eq_getD_getElem?]
      by_cases hnext : rank + 1 < sorted.size
      · rw [Array.getElem?_eq_getElem hnext, Option.getD_some, Option.getD_some]
      · obtain rfl : rank = sorted.size - 1 := by omega
        rw [Array.getElem?_eq_none (by omega), Array.back?_eq_getElem?,
          Array.getElem?_eq_getElem hrank]
        rfl
    rw [if_neg hempty, Array.getElem?_eq_getElem hrank, Option.map_some, readAt]
    dsimp only
    rw [hlo, hhi]

theorem size_ascending (samples : Array Nat) : (ascending samples).size = samples.size := by
  rw [ascending, List.size_toArray, List.length_mergeSort, Array.length_toList]

theorem quantile_eq_lookUp (r : Reservoir γ) (h : r.samples.size ≤ 2 ^ 53) (q : Float) :
    r.quantile q = lookUp (if r.sorted then r.samples else ascending r.samples) q := by
  refine quantileOf_eq_lookUp _ ?_ q
  split
  · exact h
  · rwa [size_ascending]

theorem Samples.isSome_quantile (h : r.Samples values) (q : α) :
    (r.quantile q).isSome ↔ 0 < min r.capacity values.length := by
  have hsize : (if r.sorted then r.samples else ascending r.samples).size =
      min r.capacity values.length := by
    rw [← h.size]
    split
    · rfl
    · exact size_ascending r.samples
  rw [quantile, isSome_quantileOf, hsize]

theorem Samples.quantile_isSome_iff (h : r.Samples values) (hcapacity : r.capacity ≠ 0) (q : α) :
    (r.quantile q).isSome ↔ values ≠ [] := by
  rw [h.isSome_quantile, ← List.length_pos_iff]
  omega

end Answers

end Reservoir

def Strategy.KeepsAll : Strategy → Nat → Prop
  | .reservoir capacity, n => n ≤ capacity
  | _, _ => True

theorem LogSketch.scale_foldl_insert (s : LogSketch) (values : List Nat) :
    (values.foldl insert s).scale = s.scale := by
  induction values generalizing s with
  | nil => rfl
  | cons v values ih => exact ih (s.insert v)

theorem LogSketch.foldl_insert_holds (accuracy : Float) (values : List Nat) :
    Sketch.Holds (LogScale.ofAccuracy accuracy).key (values.foldl insert (empty accuracy)).body
      values := by
  have hbody := body_run accuracy (values.map .value)
  have hholds := Sketch.run_holds (LogScale.ofAccuracy accuracy).key (values.map .value)
  rw [Change.latest_values, ← hbody, List.foldl_map] at hholds
  exact hholds

namespace Estimator

inductive Summarises : Strategy → Estimator γ → List Nat → Prop
  | histogram (maxValue : Nat) (values : List Nat) :
      Summarises (.histogram maxValue) (.histogram (.fill maxValue values)) values
  | reservoir {r : Reservoir γ} {values : List Nat} {capacity : Nat}
      (hcapacity : r.capacity = capacity) (h : r.Samples values) :
      Summarises (.reservoir capacity) (.reservoir r) values
  | sketch (accuracy : Float) (values : List Nat) :
      Summarises (.sketch accuracy) (.sketch (values.foldl .insert (.empty accuracy))) values

theorem build_summarises (strategy : Strategy) (draws : γ) :
    Summarises strategy (strategy.build draws) [] := by
  cases strategy with
  | histogram maxValue => exact .histogram maxValue []
  | reservoir capacity => exact .reservoir rfl (Reservoir.empty_samples capacity draws)
  | sketch accuracy => exact .sketch accuracy []

variable {strategy : Strategy} {e e' : Estimator γ} {values : List Nat}

theorem Summarises.insert [Draws γ] (h : Summarises strategy e values) (v : Nat) :
    Summarises strategy (e.insert v) (values ++ [v]) := by
  cases h with
  | histogram maxValue =>
    have hfill := Summarises.histogram (γ := γ) maxValue (values ++ [v])
    rw [Histogram.fill, List.foldl_append] at hfill
    exact hfill
  | reservoir hcapacity h =>
    exact .reservoir ((Reservoir.capacity_insert _ v).trans hcapacity) (h.insert v)
  | sketch accuracy =>
    have hsketch := Summarises.sketch (γ := γ) accuracy (values ++ [v])
    rw [List.foldl_append] at hsketch
    exact hsketch

theorem Summarises.reset (h : Summarises strategy e values) : Summarises strategy e.reset [] := by
  cases h with
  | histogram maxValue =>
    have hclamp := (Histogram.fill_standsFor maxValue values).clamp
    rw [Estimator.reset, Histogram.reset, hclamp]
    exact .histogram maxValue []
  | reservoir hcapacity h => exact .reservoir hcapacity (Reservoir.reset_samples _)
  | sketch accuracy =>
    have hscale := LogSketch.scale_foldl_insert (.empty accuracy) values
    rw [Estimator.reset, LogSketch.reset, hscale]
    exact .sketch accuracy []

theorem Summarises.count (h : Summarises strategy e values) : e.count = values.length := by
  cases h with
  | histogram maxValue =>
    have htally := (Histogram.fill_standsFor maxValue values).tallies
    exact htally.count.trans (List.length_map _)
  | reservoir _ h => exact h.seen
  | sketch accuracy =>
    exact (LogSketch.foldl_insert_holds accuracy values).count

def Full (capacity : Nat) (e : Estimator γ) : Prop :=
  ∃ r, e = .reservoir r ∧ r.isFull = true ∧ r.samples.size = capacity

theorem Summarises.full {capacity : Nat} (h : Summarises (.reservoir capacity) e values)
    (hn : capacity ≤ values.length) : e.Full capacity := by
  cases h with
  | reservoir hcapacity h =>
    have hsize := h.size
    rw [hcapacity, Nat.min_eq_left hn] at hsize
    refine ⟨_, rfl, ?_, hsize⟩
    rw [Reservoir.isFull, decide_eq_true_iff, hcapacity, hsize]

theorem Summarises.quantile_eq (h : Summarises strategy e values)
    (h' : Summarises strategy e' values) (hall : strategy.KeepsAll values.length) (q : Float) :
    e.quantile q = e'.quantile q := by
  cases h with
  | histogram maxValue =>
    cases h'
    rfl
  | reservoir hcapacity h =>
    cases h' with
    | reservoir hcapacity' h' =>
      exact h.quantile_eq h' (hcapacity ▸ hall) (hcapacity' ▸ hall) q
  | sketch accuracy =>
    cases h'
    rfl

theorem Summarises.quantile_isSome_iff (h : Summarises strategy e values)
    (hcheck : strategy.check = .ok ()) (q : Float) : (e.quantile q).isSome ↔ values ≠ [] := by
  cases h with
  | histogram maxValue =>
    have hcount : (Histogram.fill maxValue values).count = values.length :=
      (Summarises.histogram (γ := γ) maxValue values).count
    rw [quantile, Histogram.quantile, hcount, ← List.length_pos_iff, Nat.pos_iff_ne_zero]
    by_cases hzero : values.length = 0
    · simp [hzero]
    · simp [hzero]
  | reservoir hcapacity h =>
    refine h.quantile_isSome_iff (fun hzero => ?_) q
    rw [Strategy.check, if_pos (hcapacity.symm.trans hzero)] at hcheck
    cases hcheck
  | sketch accuracy =>
    exact (LogSketch.foldl_insert_holds accuracy values).quantile_isSome_iff _ q

theorem Summarises.ne_nil_of_quantile (h : Summarises strategy e values) {q : Float}
    (hsome : (e.quantile q).isSome) : values ≠ [] := by
  cases h with
  | histogram maxValue =>
    have hcount : (Histogram.fill maxValue values).count = values.length :=
      (Summarises.histogram (γ := γ) maxValue values).count
    rintro rfl
    rw [quantile, Histogram.quantile, if_pos (hcount.trans List.length_nil)] at hsome
    cases hsome
  | reservoir hcapacity h =>
    have hpos := (h.isSome_quantile q).mp hsome
    exact List.length_pos_iff.mp (by omega)
  | sketch accuracy =>
    exact ((LogSketch.foldl_insert_holds accuracy values).quantile_isSome_iff _ q).mp hsome

theorem count_snapshot (e : Estimator γ) : e.snapshot.count = e.count := by
  cases e with
  | histogram h => rfl
  | reservoir r => rfl
  | sketch s => rfl

theorem quantile_snapshot (e : Estimator γ) (q : Float) : e.snapshot.quantile q = e.quantile q := by
  cases e with
  | histogram h => rfl
  | reservoir r => exact r.quantile_snapshot q
  | sketch s =>
    have hcopy : s.copy = s := by rw [LogSketch.copy, Sketch.copy, Bins.empty_union]
    rw [snapshot, hcopy]

end Estimator

end QuantileMonitor.Quantile
