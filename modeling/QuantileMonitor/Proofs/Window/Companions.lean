import QuantileMonitor.Proofs.Window.Replay

/-!
# The exact companions of a window

Count, sum, extremes and the largest values stand beside the estimator and are kept apart from it. They
are those of the values recorded since the window was created or last reset, and where the estimator
counts its zeros it counts the values that the companions do not count as nonzero.
-/

namespace QuantileMonitor

open Quantile

variable {γ : Type} {strategy : Strategy}

namespace Quantile

theorem count_zero_add_countP (values : List Nat) :
    values.count 0 + values.countP (0 < ·) = values.length := by
  rw [List.countP_eq_length_filter]
  exact count_zero_add_length_positives values

theorem count_zero_map_min {clamp : Nat} (h : clamp ≠ 0) (values : List Nat) :
    (values.map (min · clamp)).count 0 = values.count 0 := by
  rw [List.count_eq_countP, List.countP_map, List.count_eq_countP]
  refine List.countP_congr fun v _ => ?_
  simp only [Function.comp_apply, beq_iff_eq]
  omega

theorem Strategy.maxValue_ne_zero {maxValue : Nat}
    (h : (Strategy.histogram maxValue).check = .ok ()) : maxValue ≠ 0 := by
  rintro rfl
  cases h

namespace Estimator.Summarises

variable {values : List Nat}

theorem bucket_zero {h : Histogram} (hs : Summarises (γ := γ) strategy (.histogram h) values)
    (hcheck : strategy.check = .ok ()) : h.bucket 0 = values.count 0 := by
  cases hs with
  | histogram maxValue =>
    have hfill := Histogram.fill_standsFor maxValue values
    rw [hfill.tallies.bucket_eq, Nat.zero_min, count_zero_map_min (Strategy.maxValue_ne_zero hcheck)]

theorem zeros {s : LogSketch} (hs : Summarises (γ := γ) strategy (.sketch s) values) :
    s.body.zeros = values.count 0 := by
  cases hs with
  | sketch accuracy => exact (LogSketch.foldl_insert_holds accuracy values).zeros

end Estimator.Summarises

end Quantile

namespace Window

variable [Draws γ]

/-- What stands beside the estimator is exact: it is what the values since the last reset say, however
many there were before it, and both sides agree on the count and on the zeros. -/
theorem companions_exact (hcheck : strategy.check = .ok ()) (draws : γ) (changes : List Change) :
    let w := changes.foldl change (empty strategy draws)
    let values := Change.latest changes
    let n := values.length
    w.exact.count = n ∧ w.exact.sum = min (values.sum) Word.top ∧
      w.exact.nonzero = values.countP (0 < ·) ∧
      w.exact.min = values.min?.getD 0 ∧ w.exact.max = values.max?.getD 0 ∧
      (w.top.values = (ranked values).drop (n - 5) ∧ w.top.values.length = min 5 n ∧
        w.top.values.getLast? = if n = 0 then none else some w.exact.max) ∧
      w.estimator.count = n ∧
      (∀ h, w.estimator = .histogram h → h.bucket 0 + w.exact.nonzero = n) ∧
      ∀ s, w.estimator = .sketch s → s.body.zeros + w.exact.nonzero = n := by
  intro w values n
  have hw : w.Shows strategy values := (empty_shows strategy draws).foldl_change changes
  have htop : w.top.values = largest 5 values := hw.top
  have hlast : w.top.values.getLast? = if n = 0 then none else some w.exact.max := by
    rw [htop, getLast?_largest (by decide), hw.exact]
    split_ifs with hn
    · rw [List.eq_nil_of_length_eq_zero hn]
      rfl
    · obtain ⟨greatest, hgreatest⟩ := exists_greatest (mt List.length_eq_zero_iff.mpr hn)
      rw [figures, hgreatest]
      rfl
  have hnonzero : w.exact.nonzero = values.countP (0 < ·) := by rw [hw.exact]; rfl
  have hzeros : values.count 0 + w.exact.nonzero = n := by
    rw [hnonzero]
    exact count_zero_add_countP values
  refine ⟨by rw [hw.exact]; rfl, by rw [hw.exact]; rfl, hnonzero, by rw [hw.exact]; rfl,
    by rw [hw.exact]; rfl, ⟨htop, ?_, hlast⟩, hw.estimator.count, fun h hh => ?_, fun s hs => ?_⟩
  · rw [htop, length_largest]
  · have hestimator := hw.estimator
    rw [hh] at hestimator
    rw [hestimator.bucket_zero hcheck, hzeros]
  · have hestimator := hw.estimator
    rw [hs] at hestimator
    rw [hestimator.zeros, hzeros]

theorem companions_exact_histogram :
    let w := [.value 9, .reset, .value 0, .value 7, .value 3].foldl change
      (empty (.histogram 3) ([] : List Nat))
    (Strategy.histogram 3).check = .ok () ∧ w.exact.count = 3 ∧ w.exact.max = 7 ∧
      w.top.values.length = 3 ∧ w.top.values.getLast? = some 7 ∧
      ∀ h, w.estimator = .histogram h → h.bucket 0 = 1 := by
  intro w
  have hcheck : (Strategy.histogram 3).check = .ok () := rfl
  obtain ⟨hcount, -, hnonzero, -, hmax, ⟨-, hlength, hlast⟩, -, hbucket, -⟩ :=
    companions_exact hcheck ([] : List Nat) [.value 9, .reset, .value 0, .value 7, .value 3]
  refine ⟨hcheck, hcount, hmax, hlength, hlast, fun h hh => ?_⟩
  have hall := hbucket h hh
  rw [hnonzero] at hall
  exact Nat.add_right_cancel hall

end Window

end QuantileMonitor
