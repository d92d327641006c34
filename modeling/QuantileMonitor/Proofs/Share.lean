import QuantileMonitor.Proofs.Double
import QuantileMonitor.Word

/-!
# The whole of a count

A count of 64 bits is a finite double, exactly or rounded, and a finite double divided by itself is one. So
all of a count is a share of one.
-/

namespace QuantileMonitor.Double

open Float.Model Float.Model.UnpackedFloat

variable {m n : Nat} {e : Int}

/-- A double that is stored as it is, with all bits of its mantissa. -/
structure Full (m : Nat) (e : Int) : Prop where
  low : 2 ^ 52 ≤ m
  high : m < 2 ^ 53
  least : -1074 ≤ e
  greatest : e ≤ 971

theorem Full.pos (h : Full m e) : 0 < m := Nat.lt_of_lt_of_le (Nat.two_pow_pos 52) h.low

theorem Full.log2 (h : Full m e) : m.log2 = 52 :=
  (Nat.log2_eq_iff (Nat.ne_of_gt h.pos)).mpr ⟨h.low, h.high⟩

theorem Full.unpack_pack (h : Full m e) :
    (Float.Model.pack (.finite .positive m e h.pos)).unpack = .finite .positive m e h.pos := by
  obtain ⟨b, hb⟩ : ∃ b : Nat, e = b - 1075 := ⟨(e + 1075).toNat, by have := h.least; omega⟩
  have hleast := h.least
  have hgreatest := h.greatest
  have hbiased : (e + Format.exponentBias Format.binary64 +
      Format.mantissaBitsWithoutImplicit Format.binary64).toNat = b := by
    simp only [Format.exponentBias]
    omega
  have hfinite : ¬2 ^ Format.exponentBits Format.binary64 ≤ b + 1 := by
    simp only
    omega
  have hlog : m.log2 + 1 = Format.mantissaBits Format.binary64 := by
    rw [h.log2]
    rfl
  rw [Float.Model.unpack, Float.Model.pack, UInt64.toBitVec_ofBitVec, UnpackedFloat.pack]
  simp only [hbiased]
  rw [if_neg hfinite, if_pos hlog, unpack_normal h.pos h.low h.high (by omega) (by omega)]
  exact finite_congr rfl hb.symm

theorem shift_full (he : -1074 ≤ e + (m.log2 - 52 : Nat)) :
    shiftToTargetExponent Format.binary64 m e .exact =
      (ExtendedMantissa.mk m false false >>> (m.log2 - 52), e + (m.log2 - 52 : Nat)) :=
  shiftToTargetExponent_of (by omega)

theorem le_log2_of_le (h : 2 ^ 52 ≤ m) : 52 ≤ m.log2 :=
  (Nat.le_log2 (Nat.ne_of_gt (Nat.lt_of_lt_of_le (Nat.two_pow_pos 52) h))).mpr h

theorem ne_zero_of_log2 (h : 52 ≤ m.log2) : m ≠ 0 := by
  rintro rfl
  simp at h

theorem shift_again (hlow : 2 ^ 52 ≤ m) (hhigh : m ≤ 2 ^ 53) (hleast : -1074 ≤ e) (hgreatest : e < 971) :
    ∃ r e', Full r e' ∧ (m = r ∧ e = e' ∨ m = 2 ^ 53 ∧ r = 2 ^ 52 ∧ e + 1 = e') ∧
      shiftToTargetExponent Format.binary64 m e .exact = (⟨r, false, false⟩, e') := by
  have hagain := shift_full (m := m) (e := e) (by omega)
  obtain hfit | rfl := Nat.lt_or_eq_of_le hhigh
  · have hfull : Full m e := ⟨hlow, hfit, hleast, by omega⟩
    rw [hfull.log2, Nat.sub_self, Int.natCast_zero, Int.add_zero] at hagain
    exact ⟨m, e, hfull, .inl ⟨rfl, rfl⟩, hagain⟩
  · exact ⟨2 ^ 52, e + 1, ⟨Nat.le_refl _, by decide, by omega, by omega⟩, .inr ⟨rfl, rfl, rfl⟩, hagain⟩

theorem round_full (hm : 52 ≤ m.log2) (hleast : -1074 ≤ e + (m.log2 - 52 : Nat))
    (hgreatest : e + (m.log2 - 52 : Nat) < 971) :
    ∃ r e', ∃ h : Full r e',
      roundWithAccuracy Format.binary64 .positive m e .exact = .finite .positive r e' h.pos := by
  obtain ⟨r, e', hfull, -, hagain⟩ :=
    shift_again (full_le_roundedMantissa_shiftRight (ne_zero_of_log2 hm) hm)
      (roundedMantissa_shiftRight_le_full (by omega)) hleast hgreatest
  refine ⟨r, e', hfull, ?_⟩
  rw [roundWithAccuracy, shift_full hleast]
  dsimp only
  rw [hagain]
  exact dif_neg (Nat.ne_of_gt hfull.pos)

theorem ofNat_large (hlow : 2 ^ 53 ≤ n) :
    (Scalar.ofNat n : Float) = .ofModel (Float.Model.pack
      (roundWithAccuracy Format.binary64 .positive (n * 2 ^ 53) (-53) .exact)) := by
  have hpos : 0 < n := Nat.lt_of_lt_of_le (Nat.two_pow_pos 53) hlow
  have hmodel : (Scalar.ofNat n : Float) = .ofModel (Float.Model.ofScientific n 0) := by
    change Float.ofScientific n false 0 = _
    rw [Float.ofScientific, dif_neg (by omega)]
    rfl
  have hsafe : ¬(0 : Int) < -(2 ^ Format.binary64.exponentBits + n.log2) := by
    have hpow : (0 : Int) < 2 ^ Format.binary64.exponentBits := by decide
    omega
  have hscale : n <<< Format.binary64.mantissaBits * 10 ^ (0 : Int).toNat = n * 2 ^ 53 := by
    rw [Nat.shiftLeft_eq, Int.toNat_zero, Nat.pow_zero, Nat.mul_one]
    rfl
  rw [hmodel, Float.Model.ofScientific, UnpackedFloat.ofScientific, dif_neg (Nat.ne_of_gt hpos),
    if_neg (by decide), if_neg hsafe, if_pos (Int.le_refl 0), UnpackedFloat.mul, hscale]
  rfl

theorem log2_scaled (hlow : 2 ^ 53 ≤ n) (hhigh : n < Word.bound) :
    106 ≤ (n * 2 ^ 53).log2 ∧ (n * 2 ^ 53).log2 < 117 := by
  have hpos : 0 < n := Nat.lt_of_lt_of_le (Nat.two_pow_pos 53) hlow
  have hlog : (n * 2 ^ 53).log2 = n.log2 + 53 := log2_mul_two_pow hpos 53
  have hleast : 53 ≤ n.log2 := (Nat.le_log2 (Nat.ne_of_gt hpos)).mpr hlow
  have hgreatest : n.log2 < 64 := (Nat.log2_lt (Nat.ne_of_gt hpos)).mpr hhigh
  omega

theorem unpack_large (hlow : 2 ^ 53 ≤ n) (hhigh : n < Word.bound) :
    ∃ m e, ∃ h : Full m e, (Scalar.ofNat n : Float).toModel.unpack = .finite .positive m e h.pos := by
  obtain ⟨hleast, hgreatest⟩ := log2_scaled hlow hhigh
  obtain ⟨m, e, h, hround⟩ := round_full (m := n * 2 ^ 53) (e := -53) (by omega) (by omega) (by omega)
  refine ⟨m, e, h, ?_⟩
  rw [ofNat_large hlow, hround]
  exact h.unpack_pack

theorem exists_unpack_ofNat (hpos : 0 < n) (hn : n < Word.bound) :
    ∃ m e, ∃ h : 0 < m, (Scalar.ofNat n : Float).toModel.unpack = .finite .positive m e h := by
  obtain hsmall | hlarge := Nat.lt_or_ge n (2 ^ 53)
  · exact ⟨_, _, _, unpack_ofNat hpos hsmall⟩
  · obtain ⟨m, e, h, hunpack⟩ := unpack_large hlarge hn
    exact ⟨m, e, h.pos, hunpack⟩

theorem div_self {x : Float} {sign : Sign} {hm : 0 < m} (h : x.toModel.unpack = .finite sign m e hm) :
    x / x = 1 := by
  have hdiv : UnpackedFloat.div Format.binary64 (.finite sign m e hm) (.finite sign m e hm) =
      .finite .positive (2 ^ 52) (-((52 : Nat) : Int)) (by decide) := by
    have hcore : divCore Format.binary64 m e m e = (2 ^ 53, -53, .exact) := by
      have htarget : Format.binary64.targetExponent 0 = -53 := by decide
      rw [divCore, Int.sub_self, Int.sub_self, htarget]
      simp [Nat.shiftLeft_eq, Nat.mul_div_cancel_left _ hm, accuracyOfFraction]
    have hsign : sign / sign = .positive := by cases sign <;> rfl
    rw [UnpackedFloat.div, hcore, hsign]
    rfl
  have hmodel : (x / x) = .ofModel (Float.Model.pack
      (UnpackedFloat.div Format.binary64 x.toModel.unpack x.toModel.unpack)) := rfl
  rw [hmodel, h, hdiv]
  rfl

theorem ofNat_div_self (hpos : 0 < n) (hn : n < Word.bound) :
    (Scalar.ofNat n / Scalar.ofNat n : Float) = 1 := by
  obtain ⟨m, e, hm, h⟩ := exists_unpack_ofNat hpos hn
  exact div_self h

end QuantileMonitor.Double
