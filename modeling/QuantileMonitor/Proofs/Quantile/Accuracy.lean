import Mathlib.Algebra.Order.Archimedean.Basic
import Mathlib.Order.Lattice.Nat
import Mathlib.Tactic.Ring
import QuantileMonitor.Proofs.Quantile.Answers
import QuantileMonitor.Quantile.LogSketch

/-!
# The accuracy of a sketch

A scale of buckets that is accurate to `alpha / (1 + alpha)` on either side makes a sketch whose
quantiles are within the factor `1 + alpha` of the value that stands at their rank.
-/

namespace QuantileMonitor.Quantile

open Scalar

/-- On positive words the keys grow with the values, and the number of a bucket is near every value
that falls in it. -/
structure Grid.Accurate (g : Grid Rat) (inner : Rat) : Prop where
  mono : ∀ v w, 0 < v → v ≤ w → w ≤ Word.top → g.key v ≤ g.key w
  near : ∀ v, 0 < v → v ≤ Word.top →
    (v : Rat) * (1 - inner) ≤ g.value (g.key v) ∧ g.value (g.key v) ≤ (v : Rat) * (1 + inner)

theorem innerAccuracy_rat (alpha : Rat) : innerAccuracy alpha = alpha / (1 + alpha) := by
  rw [innerAccuracy, ofNat_rat, Nat.cast_one]

theorem one_sub_innerAccuracy {alpha : Rat} (h : 0 < alpha) :
    1 - innerAccuracy alpha = 1 / (1 + alpha) := by
  have hone : 1 + alpha ≠ 0 := by linarith
  rw [innerAccuracy_rat]
  field_simp
  ring

theorem one_add_innerAccuracy {alpha : Rat} (h : 0 < alpha) :
    1 + innerAccuracy alpha = (1 + 2 * alpha) / (1 + alpha) := by
  have hone : 1 + alpha ≠ 0 := by linarith
  rw [innerAccuracy_rat]
  field_simp
  ring

theorem within_of_near {alpha x r : Rat} (h : 0 < alpha) (hx : 0 ≤ x)
    (hlow : x * (1 - innerAccuracy alpha) ≤ r) (hhigh : r ≤ x * (1 + innerAccuracy alpha)) :
    x / (1 + alpha) ≤ r ∧ r ≤ x * (1 + alpha) := by
  have hone : 0 < 1 + alpha := by linarith
  rw [one_sub_innerAccuracy h, mul_one_div] at hlow
  have hfactor : 1 + innerAccuracy alpha ≤ 1 + alpha := by
    rw [one_add_innerAccuracy h, div_le_iff₀ hone]
    nlinarith
  exact ⟨hlow, hhigh.trans (mul_le_mul_of_nonneg_left hfactor hx)⟩

theorem within_self {alpha x : Rat} (h : 0 < alpha) (hx : 0 ≤ x) :
    x / (1 + alpha) ≤ x ∧ x ≤ x * (1 + alpha) :=
  ⟨div_le_self hx (by linarith), le_mul_of_one_le_right hx (by linarith)⟩

/-- Buckets between the powers of a factor, each with a number that is as near to its upper bound as
to its lower one. -/
noncomputable def Grid.geometric (factor : Rat) : Grid Rat where
  key v := sInf {k | (v : Rat) ≤ factor ^ k}
  value k := factor ^ k * (2 / (1 + factor))

section Geometric

variable {factor : Rat} (hfactor : 1 < factor)
include hfactor

theorem Grid.le_pow_key (v : Nat) : (v : Rat) ≤ factor ^ (geometric factor).key v := by
  obtain ⟨k, hk⟩ := pow_unbounded_of_one_lt (v : Rat) hfactor
  exact Nat.sInf_mem (s := {k | (v : Rat) ≤ factor ^ k}) ⟨k, hk.le⟩

theorem Grid.key_mono {v w : Nat} (h : v ≤ w) :
    (geometric factor).key v ≤ (geometric factor).key w := by
  refine Nat.sInf_le ?_
  have hcast : (v : Rat) ≤ w := by exact_mod_cast h
  exact hcast.trans (le_pow_key hfactor w)

theorem Grid.pow_key_le {v : Nat} (hv : 0 < v) :
    factor ^ (geometric factor).key v ≤ v * factor := by
  have hone : (1 : Rat) ≤ v := by exact_mod_cast hv
  cases hkey : (geometric factor).key v with
  | zero =>
    rw [pow_zero]
    exact one_le_mul_of_one_le_of_one_le hone hfactor.le
  | succ k =>
    have hbelow : k ∉ {k | (v : Rat) ≤ factor ^ k} :=
      Nat.notMem_of_lt_sInf (by rw [show sInf _ = k + 1 from hkey]; exact k.lt_succ_self)
    have hpow : factor ^ k ≤ v := (not_le.mp hbelow).le
    rw [pow_succ]
    exact mul_le_mul_of_nonneg_right hpow (by linarith)

end Geometric

theorem growth_innerAccuracy {alpha : Rat} (h : 0 < alpha) :
    1 + growth (innerAccuracy alpha) = 1 + 2 * alpha := by
  have hone : 1 + alpha ≠ 0 := by linarith
  rw [growth, ofNat_rat, ofNat_rat, Nat.cast_one, one_sub_innerAccuracy h, innerAccuracy_rat]
  field_simp
  ring

theorem Grid.geometric_near {alpha : Rat} (h : 0 < alpha) (v : Nat) (hv : 0 < v) :
    let g := geometric (1 + growth (innerAccuracy alpha))
    (v : Rat) * (1 - innerAccuracy alpha) ≤ g.value (g.key v) ∧
      g.value (g.key v) ≤ (v : Rat) * (1 + innerAccuracy alpha) := by
  rw [growth_innerAccuracy h]
  have hfactor : 1 < 1 + 2 * alpha := by linarith
  have hone : 0 < 1 + alpha := by linarith
  have hcentre : 2 / (1 + (1 + 2 * alpha)) = 1 / (1 + alpha) := by
    rw [div_eq_div_iff (by linarith) (by linarith)]
    ring
  have hvalue : (geometric (1 + 2 * alpha)).value ((geometric (1 + 2 * alpha)).key v) =
      (1 + 2 * alpha) ^ (geometric (1 + 2 * alpha)).key v / (1 + alpha) := by
    rw [← mul_one_div, ← hcentre]
    rfl
  dsimp only
  rw [hvalue, one_sub_innerAccuracy h, one_add_innerAccuracy h, mul_one_div, mul_div_assoc']
  exact ⟨div_le_div_of_nonneg_right (le_pow_key hfactor v) hone.le,
    div_le_div_of_nonneg_right (pow_key_le hfactor hv) hone.le⟩

theorem Grid.geometric_accurate {alpha : Rat} (h : 0 < alpha) :
    (geometric (1 + growth (innerAccuracy alpha))).Accurate (innerAccuracy alpha) := by
  have hfactor : 1 < 1 + growth (innerAccuracy alpha) := by
    rw [growth_innerAccuracy h]
    linarith
  exact ⟨fun v w _ hvw _ => key_mono hfactor hvw, fun v hv _ => geometric_near h v hv⟩

namespace Sketch

theorem Holds.quantile_accurate {g : Grid Rat} {alpha : Rat} (halpha : 0 < alpha)
    (hg : g.Accurate (innerAccuracy alpha)) {s : Sketch} {values : List Nat}
    (h : Holds g.key s values) (hwords : ∀ v ∈ values, v ≤ Word.top) (hvalues : values ≠ [])
    {q : Rat} (hq0 : 0 ≤ q) (hq1 : q ≤ 1) :
    ∃ r v, s.quantile g q = some r ∧ (ranked values)[index q values.length]? = some v ∧
      (v : Rat) / (1 + alpha) ≤ r ∧ r ≤ (v : Rat) * (1 + alpha) ∧ (r = 0 ↔ v = 0) ∧
      (index q values.length = values.count 0 ∨ index q values.length + 1 = values.length →
        r = v) := by
  have hmono : ∀ v ∈ positives values, ∀ w ∈ positives values, v ≤ w → g.key v ≤ g.key w := by
    intro v hv w hw hvw
    exact hg.mono v w (mem_positives.mp hv).2 hvw (hwords w (mem_positives.mp hw).1)
  have hanswer := h.quantile_eq hmono hvalues hq0 hq1
  have hindex := index_lt hq1 (List.length_pos_of_ne_nil hvalues)
  generalize index q values.length = i at hanswer hindex ⊢
  obtain ⟨v, hv⟩ : ∃ v, (ranked values)[i]? = some v :=
    ⟨_, List.getElem?_eq_getElem (by rwa [length_ranked])⟩
  have hv0 : (0 : Rat) ≤ v := Nat.cast_nonneg v
  rw [hv, Option.map_some] at hanswer
  by_cases hborder : i ≤ values.count 0 ∨ i + 1 = values.length
  · rw [if_pos hborder] at hanswer
    obtain ⟨hlow, hhigh⟩ := within_self halpha hv0
    exact ⟨v, v, hanswer, hv, hlow, hhigh, Nat.cast_eq_zero, fun _ => rfl⟩
  · rw [if_neg hborder] at hanswer
    have hpositive : v ∈ positives values := by
      rw [ranked_getElem?_positive (by omega)] at hv
      exact mem_ranked.mp (List.mem_of_getElem? hv)
    obtain ⟨hmem, hpos⟩ := mem_positives.mp hpositive
    obtain ⟨hnearLow, hnearHigh⟩ := hg.near v hpos (hwords v hmem)
    obtain ⟨hlow, hhigh⟩ := within_of_near halpha hv0 hnearLow hnearHigh
    have hvpos : (0 : Rat) < v := by exact_mod_cast hpos
    have hrpos : 0 < g.value (g.key v) := (div_pos hvpos (by linarith)).trans_le hlow
    refine ⟨_, v, hanswer, hv, hlow, hhigh, ?_, ?_⟩
    · exact ⟨fun hr => absurd hr hrpos.ne', fun hzero => absurd hzero hpos.ne'⟩
    · intro hend
      exact absurd (hend.imp_left Nat.le_of_eq) hborder

/-- On an accurate scale every quantile of the values since the last reset is within the factor
`1 + alpha` of the value at its rank. It is zero for zero alone, exact at the first positive value and
at the last value, and nothing underflows or is divided by zero on the way. -/
theorem run_quantile_accurate (g : Grid Rat) {alpha : Rat} (halpha : 0 < alpha)
    (hg : g.Accurate (innerAccuracy alpha)) (changes : List Change)
    (hwords : ∀ v ∈ Change.latest changes, v ≤ Word.top) (hvalues : Change.latest changes ≠ [])
    {q : Rat} (hq0 : 0 ≤ q) (hq1 : q ≤ 1) :
    let s := run g.key changes
    let values := Change.latest changes
    let i := ⌊q * (values.length - 1 : Nat)⌋₊
    ∃ r v, s.quantile g q = some r ∧ (ranked values)[i]? = some v ∧
      (v : Rat) / (1 + alpha) ≤ r ∧ r ≤ (v : Rat) * (1 + alpha) ∧ (r = 0 ↔ v = 0) ∧
      (i = values.count 0 ∨ i + 1 = values.length → r = v) ∧
      s.quantile? g q = some (some r) := by
  intro s values i
  have hholds := run_holds g.key changes
  obtain ⟨r, v, hanswer, hv, hlow, hhigh, hzero, hexact⟩ :=
    hholds.quantile_accurate halpha hg hwords hvalues hq0 hq1
  refine ⟨r, v, hanswer, hv, hlow, hhigh, hzero, hexact, ?_⟩
  rw [hholds.quantile?_eq hq0 hq1, hanswer]

theorem run_quantile_accurate_median :
    let g := Grid.geometric (1 + growth (innerAccuracy (1 / 100)))
    let s := run g.key [.value 5, .reset, .value 0, .value 900, .value 3, .value 12, .value 7]
    ∃ r, s.quantile g (1 / 2) = some r ∧ (7 : Rat) / (1 + 1 / 100) ≤ r ∧
      r ≤ (7 : Rat) * (1 + 1 / 100) := by
  intro g s
  obtain ⟨r, v, hanswer, hv, hlow, hhigh, -⟩ := run_quantile_accurate g (by norm_num)
    (Grid.geometric_accurate (by norm_num))
    [.value 5, .reset, .value 0, .value 900, .value 3, .value 12, .value 7]
    (by decide) (by decide) (q := 1 / 2) (by norm_num) (by norm_num)
  have hranked : ranked [0, 900, 3, 12, 7] = [0, 3, 7, 12, 900] :=
    ranked_eq (by decide) (by decide)
  have hindex : ⌊(1 / 2 : Rat) * (5 - 1 : Nat)⌋₊ = 2 := by norm_num
  have hmedian : v = 7 := by
    have hsome : [0, 3, 7, 12, 900][⌊(1 / 2 : Rat) * (5 - 1 : Nat)⌋₊]? = some v := hranked ▸ hv
    rw [hindex] at hsome
    exact (Option.some.inj hsome).symm
  subst hmedian
  exact ⟨r, hanswer, hlow, hhigh⟩

end Sketch

end QuantileMonitor.Quantile
