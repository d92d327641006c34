import QuantileMonitor.Proofs.Double
import QuantileMonitor.Quantile.LogSketch
import QuantileMonitor.Quantile.Strategy

/-!
# Scales of accepted accuracies

Doubles compare as equal when they are one double, except for the zeros, which have a sign, and for what
is no number. An accepted accuracy leads to neither, so its scale agrees with itself, and two scales agree
exactly if their buckets are computed from one double.
-/

namespace QuantileMonitor

namespace Double

open Float.Model Float.Model.UnpackedFloat

inductive Unsigned : UnpackedFloat → Prop
  | infinity : Unsigned (.infinity .positive)
  | zero : Unsigned (.zero .positive)
  | finite {m : Nat} {e : Int} (hm : 0 < m) : Unsigned (.finite .positive m e hm)

theorem round_unsigned (m : Nat) (e : Int) (accuracy : Accuracy) :
    Unsigned (roundWithAccuracy Format.binary64 .positive m e accuracy) := by
  rw [roundWithAccuracy]
  dsimp only
  split
  · exact .zero
  · exact .finite _

theorem components_unsigned {e : BitVec 11} {m : BitVec 52} (h : e ≠ -1#11 ∨ m = 0#52) :
    Unsigned (UnpackedFloat.unpack Format.binary64 (packComponents Format.binary64 .positive e m)) := by
  rw [UnpackedFloat.unpack]
  simp only [unpackMantissa_packComponents, unpackExponent_packComponents, unpackSign_pack]
  split
  next htop =>
    rw [if_pos (h.resolve_left (not_not.mpr htop))]
    exact .infinity
  next =>
    split
    · split
      · exact .zero
      · exact .finite _
    · exact .finite _

theorem pack_unsigned {f : UnpackedFloat} (h : Unsigned f) : Unsigned (Float.Model.pack f).unpack := by
  rw [Float.Model.unpack, Float.Model.pack, UInt64.toBitVec_ofBitVec]
  cases h with
  | infinity => exact components_unsigned (.inr rfl)
  | zero => exact components_unsigned (.inl (by decide))
  | @finite m e hm =>
    rw [UnpackedFloat.pack]
    dsimp only
    split
    next => exact components_unsigned (.inr rfl)
    next hroom =>
      split
      · refine components_unsigned (.inl fun htop => hroom ?_)
        have htoNat := congrArg BitVec.toNat htop
        simp at htoNat
        omega
      · exact components_unsigned (.inl (by decide))

theorem normalize_unsigned {m : Int} (hm : 0 ≤ m) (e : Int) :
    Unsigned (UnpackedFloat.normalize Format.binary64 m e .positive) := by
  rw [UnpackedFloat.normalize]
  rcases Int.lt_or_eq_of_le hm with hpos | rfl
  · rw [Int.compare_eq_gt.mpr hpos]
    exact round_unsigned _ _ _
  · exact .zero

theorem add_unsigned {m n : Nat} {e f : Int} (hm : 0 < m) (hn : 0 < n) :
    Unsigned (UnpackedFloat.add Format.binary64 (.finite .positive m e hm) (.finite .positive n f hn)) :=
  normalize_unsigned (Int.add_nonneg (Int.natCast_nonneg _) (Int.natCast_nonneg _)) _

theorem div_unsigned {m : Nat} {e : Int} (hm : 0 < m) {f : UnpackedFloat} (hf : Unsigned f) :
    Unsigned (UnpackedFloat.div Format.binary64 (.finite .positive m e hm) f) := by
  cases hf with
  | infinity => exact .zero
  | zero => exact .infinity
  | finite hn => exact round_unsigned _ _ _

theorem beq_iff_eq_of_unsigned {x y : Float} (hx : Unsigned x.toModel.unpack) (hy : Unsigned y.toModel.unpack) :
    (x == y) = true ↔ x = y := by
  have hnan : Float.nan.toModel.unpack = .notANumber := rfl
  have hzero : (-0 : Float).toModel.unpack = .zero .negative := rfl
  have hne : ∀ {z : Float}, Unsigned z.toModel.unpack → z ≠ Float.nan ∧ z ≠ -0 := by
    rintro z hz
    constructor
    · rintro rfl
      rw [hnan] at hz
      cases hz
    · rintro rfl
      rw [hzero] at hz
      cases hz
  rw [Float.beq_iff_ne_nan_and_eq]
  constructor
  · rintro ⟨-, -, heq | ⟨-, hminus⟩ | ⟨hminus, -⟩⟩
    · exact heq
    · exact absurd hminus (hne hy).2
    · exact absurd hminus (hne hx).2
  · intro heq
    exact ⟨(hne hx).1, (hne hy).1, .inl heq⟩

theorem exists_finite {x : Float} (hpos : 0 < x) (hone : x < 1) :
    ∃ (m : Nat) (e : Int) (hm : 0 < m), x.toModel.unpack = .finite .positive m e hm := by
  have hzero : (0 : Float).toModel.unpack = .zero .positive := rfl
  have hunit : (1 : Float).toModel.unpack = .finite .positive (2 ^ 52) (-52) (by decide) := rfl
  rw [lt_iff, hzero] at hpos
  rw [lt_iff, hunit] at hone
  cases hx : x.toModel.unpack with
  | notANumber =>
    rw [hx] at hpos
    cases hpos
  | infinity s =>
    rw [hx] at hpos hone
    cases s with
    | positive => cases hone
    | negative => cases hpos
  | zero s =>
    rw [hx] at hpos
    cases hpos
  | finite s m e hm =>
    rw [hx] at hpos
    cases s with
    | positive => exact ⟨m, e, hm, rfl⟩
    | negative => cases hpos

end Double

namespace Quantile

open Double

theorem inside_of_accepted {accuracy : Float} (h : (Strategy.sketch accuracy).check = .ok ()) :
    0 < accuracy ∧ accuracy < 1 := by
  rw [Strategy.check] at h
  split at h
  next => cases h
  next hinside => simpa using hinside

theorem innerAccuracy_unsigned {accuracy : Float} (h : (Strategy.sketch accuracy).check = .ok ()) :
    Unsigned (innerAccuracy accuracy).toModel.unpack := by
  obtain ⟨hpos, hone⟩ := inside_of_accepted h
  obtain ⟨m, e, hm, hfinite⟩ := exists_finite hpos hone
  have hunit : (Scalar.ofNat 1 : Float).toModel.unpack =
      .finite .positive (2 ^ 52) (-52) (by decide) := rfl
  have hsum : Unsigned (Scalar.ofNat 1 + accuracy).toModel.unpack := by
    refine pack_unsigned (f := .add .binary64 _ _) ?_
    rw [hunit, hfinite]
    exact add_unsigned _ hm
  refine pack_unsigned (f := .div .binary64 _ _) ?_
  rw [hfinite]
  exact div_unsigned hm hsum

namespace LogScale

variable {accuracy other : Float}

theorem ofAccuracy_key (h : innerAccuracy accuracy = innerAccuracy other) :
    (ofAccuracy accuracy).key = (ofAccuracy other).key := by
  funext v
  rw [key, key, ofAccuracy, ofAccuracy, h]

theorem agrees_iff (haccuracy : (Strategy.sketch accuracy).check = .ok ())
    (hother : (Strategy.sketch other).check = .ok ()) :
    (ofAccuracy accuracy).agrees (ofAccuracy other) = true ↔
      innerAccuracy accuracy = innerAccuracy other := by
  have hbeq := beq_iff_eq_of_unsigned (innerAccuracy_unsigned haccuracy) (innerAccuracy_unsigned hother)
  rw [agrees, Bool.and_eq_true]
  constructor
  · rintro ⟨hinner, -⟩
    exact hbeq.mp hinner
  · intro hinner
    refine ⟨hbeq.mpr hinner, ?_⟩
    rw [beq_iff_eq, Grid.room, Grid.room]
    exact congrArg (fun key : Nat → Nat => min (key Word.top + 2) Grid.binLimit)
      (ofAccuracy_key hinner)

end LogScale

end Quantile

end QuantileMonitor
