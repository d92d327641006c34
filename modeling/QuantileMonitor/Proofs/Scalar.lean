import Mathlib.Data.Rat.Floor
import QuantileMonitor.Quantile.Position

/-!
# Exact scalars

Over the rationals the conversions are the cast and the floor.
-/

namespace QuantileMonitor

namespace Scalar

theorem ofNat_rat (n : Nat) : (ofNat n : Rat) = n := Rat.mkRat_one n

theorem whole_rat (x : Rat) : whole x = ⌊x⌋₊ := rfl

theorem half_rat : (half : Rat) = 1 / 2 := by
  rw [half, ofNat_rat, ofNat_rat]
  norm_num

end Scalar

theorem Quantile.unit_eq_max_min (q : Rat) : Quantile.unit q = max 0 (min q 1) := by
  rw [unit, Scalar.ofNat_rat, Scalar.ofNat_rat, Nat.cast_zero, Nat.cast_one]
  split_ifs with hpos hbig
  · rw [min_eq_right hbig.le, max_eq_right zero_le_one]
  · rw [min_eq_left (not_lt.mp hbig), max_eq_right hpos.le]
  · rw [max_eq_left ((min_le_left q 1).trans (not_lt.mp hpos))]

theorem Quantile.unit_nonneg (q : Rat) : 0 ≤ Quantile.unit q := by
  rw [unit_eq_max_min]
  exact le_max_left _ _

theorem Quantile.unit_le_one (q : Rat) : Quantile.unit q ≤ 1 := by
  rw [unit_eq_max_min]
  exact max_le zero_le_one (min_le_right _ _)

theorem Quantile.unit_le_unit {p q : Rat} (h : p ≤ q) : Quantile.unit p ≤ Quantile.unit q := by
  rw [unit_eq_max_min, unit_eq_max_min]
  exact max_le_max_left 0 (min_le_min_right 1 h)

theorem Quantile.unit_of_mem {q : Rat} (h0 : 0 ≤ q) (h1 : q ≤ 1) : Quantile.unit q = q := by
  rw [unit_eq_max_min, min_eq_left h1, max_eq_right h0]

end QuantileMonitor
