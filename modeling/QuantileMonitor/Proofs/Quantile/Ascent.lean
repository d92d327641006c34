import QuantileMonitor.Proofs.Quantile.Arrivals
import QuantileMonitor.Proofs.Quantile.Line

/-!
# Interpolated quantiles ascend

The line through ascending values ascends, across ranks as well as between them. A histogram and a
reservoir read their quantiles off such a line, at a position that grows with the quantile and stays
between the first rank and the last one.
-/

namespace QuantileMonitor.Quantile

theorem line_first (x : Nat) (rest : List Nat) : line (x :: rest) 0 = x := by
  have hrank : (x :: rest)[0]? = some x := rfl
  simpa using line_rank hrank

theorem line_le_line {values : List Nat} (hvalues : values.Pairwise (· ≤ ·)) {p q : Rat}
    (hp : 0 ≤ p) (hpq : p ≤ q) : line values p ≤ line values q := by
  induction values generalizing p q with
  | nil => exact le_refl _
  | cons x rest ih =>
    cases rest with
    | nil => exact le_refl _
    | cons y rest =>
      obtain ⟨hfirst, hrest⟩ := List.pairwise_cons.mp hvalues
      have hxy : (x : Rat) ≤ y := by exact_mod_cast hfirst y List.mem_cons_self
      have hrise : 0 ≤ (y : Rat) - x := sub_nonneg.mpr hxy
      by_cases hq1 : q ≤ 1
      · have hstep := mul_le_mul_of_nonneg_right hpq hrise
        rw [line, line, if_pos (hpq.trans hq1), if_pos hq1]
        linarith
      · by_cases hp1 : p ≤ 1
        · -- The joint of the first two pieces stands between the two points.
          have hleft := mul_le_mul_of_nonneg_right hp1 hrise
          have hright : line (y :: rest) 0 ≤ line (y :: rest) (q - 1) :=
            ih hrest (le_refl 0) (by linarith)
          rw [line_first] at hright
          rw [line, line, if_pos hp1, if_neg hq1]
          linarith
        · rw [line, line, if_neg hp1, if_neg hq1]
          exact ih hrest (by linarith) (by linarith)

def Ascends (values : List Nat) (quantile : Rat → Option Rat) : Prop :=
  ∃ least ∈ values.min?, ∃ greatest ∈ values.max?,
    quantile 0 = some (least : Rat) ∧ quantile 1 = some (greatest : Rat) ∧
      ∀ p q, p ≤ q → ∃ x y, quantile p = some x ∧ quantile q = some y ∧
        (least : Rat) ≤ x ∧ x ≤ y ∧ y ≤ greatest

theorem Ascends.of_line {values : List Nat} (hne : values ≠ []) {quantile : Rat → Option Rat}
    (h : ∀ q, quantile q = some (line (ranked values) (unit q * (values.length - 1 : Nat)))) :
    Ascends values quantile := by
  have hlength := List.length_pos_of_ne_nil hne
  obtain ⟨greatest, hgreatest⟩ := exists_greatest hne
  obtain ⟨least, hleast⟩ := Option.ne_none_iff_exists'.mp (mt List.min?_eq_none_iff.mp hne)
  have hfirst : line (ranked values) 0 = least := by
    simpa using line_rank ((ranked_getElem?_first values).trans hleast)
  have hlast : line (ranked values) (values.length - 1 : Nat) = greatest :=
    line_rank ((ranked_getElem?_last values).trans hgreatest)
  have hn : (0 : Rat) ≤ (values.length - 1 : Nat) := Nat.cast_nonneg _
  have hlow : ∀ q : Rat, 0 ≤ unit q * (values.length - 1 : Nat) :=
    fun q => mul_nonneg (unit_nonneg q) hn
  have hhigh : ∀ q : Rat, unit q * (values.length - 1 : Nat) ≤ (values.length - 1 : Nat) :=
    fun q => mul_le_of_le_one_left hn (unit_le_one q)
  have hline : ∀ {p q : Rat}, 0 ≤ p → p ≤ q → line (ranked values) p ≤ line (ranked values) q :=
    line_le_line (ranked_ascending values)
  refine ⟨least, hleast, greatest, hgreatest, ?_, ?_, fun p q hpq => ?_⟩
  · rw [h, unit_of_mem (le_refl 0) zero_le_one, zero_mul, hfirst]
  · rw [h, unit_of_mem zero_le_one (le_refl 1), one_mul, hlast]
  · refine ⟨_, _, h p, h q, ?_, ?_, ?_⟩
    · rw [← hfirst]
      exact hline (le_refl 0) (hlow p)
    · exact hline (hlow p) (mul_le_mul_of_nonneg_right (unit_le_unit hpq) hn)
    · rw [← hlast]
      exact hline (hlow q) (hhigh q)

theorem position_unit (q : Rat) (n : Nat) : position (unit q) n = position q n := by
  rw [position, position, unit_of_mem (unit_nonneg q) (unit_le_one q)]

theorem Histogram.Tallies.ascends {h : Histogram} {values : List Nat} (ht : h.Tallies values)
    (hne : values ≠ []) : Ascends values h.quantile := by
  refine .of_line hne fun q => ?_
  have hquantile := ht.quantile (unit_nonneg q) (unit_le_one q)
  rw [if_neg hne] at hquantile
  rw [← hquantile, Histogram.quantile, Histogram.quantile, position_unit]

namespace Reservoir

variable {γ : Type} {r : Reservoir γ} {c : Nat} {values : List Nat}

theorem quantileOf_eq_line {sorted : List Nat} (hne : sorted ≠ []) (q : Rat) :
    quantileOf sorted.toArray q = some (line sorted (unit q * (sorted.length - 1 : Nat))) := by
  have hvalue : ∀ i x, sorted[i]? = some x →
      sorted.toArray.getD i (sorted.toArray.back?.getD 0) = x := by
    intro i x hx
    rw [Array.getD_eq_getD_getElem?, List.getElem?_toArray, hx, Option.getD_some]
  rw [quantileOf, if_neg (by simpa using hne), List.size_toArray, ← position_unit,
    readAt_position hvalue hne (unit_nonneg q) (unit_le_one q)]

theorem Keeps.ascends (h : r.Keeps c values) (hne : r.samples.toList ≠ []) :
    Ascends r.samples.toList r.quantile := by
  refine .of_line hne fun q => ?_
  have hranked : ranked r.samples.toList ≠ [] := by
    apply List.ne_nil_of_length_pos
    rw [length_ranked]
    exact List.length_pos_of_ne_nil hne
  have hline := quantileOf_eq_line hranked q
  rw [length_ranked] at hline
  rw [quantile_eq_quantileOf, h.ordered, ← hline]
  rfl

theorem Keeps.samples_ne_nil_iff (h : r.Keeps c values) :
    r.samples.toList ≠ [] ↔ 1 ≤ c ∧ r.seen ≠ 0 := by
  have hsize := h.size
  rw [← Array.length_toList] at hsize
  rw [← List.length_pos_iff, hsize]
  omega

end Reservoir

/-- After every run, and whatever was drawn in it, the quantiles of a histogram that counted a value
ascend from the smallest of its clamped values to the largest. So do those of a reservoir, from the
smallest of the values it retains, and it retains one as soon as it took one. -/
theorem interpolated_quantiles_ascend {ι γ : Type} [DecidableEq ι] [Draws γ] :
    (∀ (clamps : ι → Nat) (steps : List (Histogram.Step ι)) (i : ι),
      let h := steps.foldl Histogram.apply (fun i => .empty (clamps i)) i
      let s := steps.foldl Histogram.track (fun i => ⟨clamps i, []⟩) i
      (h.count ≠ 0 ↔ s.values ≠ []) ∧ (h.count ≠ 0 → Ascends s.values h.quantile)) ∧
    ∀ (c : Nat) (draws : ι → γ) (steps : List (Reservoir.Step ι γ)) (i : ι),
      let r := steps.foldl Reservoir.apply (fun i => .empty c (draws i)) i
      let retained := r.samples.toList
      (retained ≠ [] ↔ 1 ≤ c ∧ r.seen ≠ 0) ∧ (retained ≠ [] → Ascends retained r.quantile) := by
  constructor
  · intro clamps steps i h s
    have ht : h.Tallies s.values :=
      (Histogram.foldl_standsFor (fun i => ⟨rfl, .of_empty (clamps i)⟩) steps i).tallies
    have hcount : h.count ≠ 0 ↔ s.values ≠ [] := by rw [ht.count, ne_eq, List.length_eq_zero_iff]
    exact ⟨hcount, fun hne => ht.ascends (hcount.mp hne)⟩
  · intro c draws steps i r retained
    have hkeeps : r.Keeps c (steps.foldl Reservoir.track (fun _ => []) i) :=
      Reservoir.foldl_keeps (fun i => .empty c (draws i)) steps i
    exact ⟨hkeeps.samples_ne_nil_iff, hkeeps.ascends⟩

end QuantileMonitor.Quantile
