import Mathlib
import QuantileMonitor.Quantile.Position

/-!
# Positions in doubles

A share of a whole number that doubles can hold is rounded to that number at the most. So a position
among some values, however its quantile was given, does not lead past the last of them.
-/

namespace QuantileMonitor.Double

open Float.Model Float.Model.UnpackedFloat

/-- Doubles from zero to a whole number, as they are stored: with a full mantissa or the least
exponent. -/
inductive Within (k : Nat) : UnpackedFloat → Prop
  | zero (sign : Sign) : Within k (.zero sign)
  | finite {m d : Nat} (hm : 0 < m) (hfit : m < 2 ^ 53) (hd : d ≤ 1074)
      (hstored : 2 ^ 52 ≤ m ∨ d = 1074) (hle : m ≤ k * 2 ^ d) :
      Within k (.finite .positive m (-(d : Int)) hm)

theorem mantissa_shiftRight (em : ExtendedMantissa) (n : Nat) :
    (em >>> n).mantissa = em.mantissa / 2 ^ n := by
  induction n with
  | zero => exact (Nat.div_one _).symm
  | succ n ih =>
    have hstep : (em >>> (n + 1)).mantissa = (em >>> n).mantissa / 2 := rfl
    rw [hstep, ih, Nat.div_div_eq_div_mul, Nat.pow_succ]

theorem shiftRight_mul (m n : Nat) :
    (ExtendedMantissa.mk (m * 2 ^ n) false false) >>> n = ⟨m, false, false⟩ := by
  induction n generalizing m with
  | zero =>
    rw [Nat.pow_zero, Nat.mul_one]
    rfl
  | succ n ih =>
    have hstep : ∀ em : ExtendedMantissa, em >>> (n + 1) = (em >>> n).shiftRightOne := fun _ => rfl
    have htwice : m * 2 ^ (n + 1) = m * 2 * 2 ^ n := by
      rw [Nat.pow_succ, Nat.mul_assoc, Nat.mul_comm 2]
    rw [hstep, htwice, ih]
    simp [ExtendedMantissa.shiftRightOne]

theorem roundedMantissa_le (em : ExtendedMantissa) : em.roundedMantissa ≤ em.mantissa + 1 := by
  rcases em with ⟨m, round, sticky⟩
  cases round <;> cases sticky <;>
    simp only [ExtendedMantissa.roundedMantissa, ExtendedMantissa.accuracy,
      Accuracy.roundToNearestEven] <;>
    omega

theorem le_roundedMantissa (em : ExtendedMantissa) : em.mantissa ≤ em.roundedMantissa := by
  rcases em with ⟨m, round, sticky⟩
  cases round <;> cases sticky <;>
    simp only [ExtendedMantissa.roundedMantissa, ExtendedMantissa.accuracy,
      Accuracy.roundToNearestEven] <;>
    omega

theorem roundedMantissa_shiftRight_le {m n k : Nat} (h : m ≤ k * 2 ^ n) :
    ((ExtendedMantissa.mk m false false) >>> n).roundedMantissa ≤ k := by
  rcases Nat.eq_or_lt_of_le h with rfl | hlt
  · rw [shiftRight_mul]
    exact Nat.le_refl k
  · have hdiv : m / 2 ^ n < k := (Nat.div_lt_iff_lt_mul (Nat.two_pow_pos n)).mpr hlt
    have hround := roundedMantissa_le ((ExtendedMantissa.mk m false false) >>> n)
    rw [mantissa_shiftRight] at hround
    exact Nat.le_trans hround hdiv

theorem shiftToTargetExponent_of {m s : Nat} {e : Int} {a : Accuracy}
    (hs : s = max (m.log2 - 52) (-1074 - e).toNat) :
    shiftToTargetExponent Format.binary64 m e a =
      (ExtendedMantissa.ofMantissaAndAccuracy m a >>> s, e + s) := by
  have hshift : (Format.binary64.targetExponent (totalExponent m e) - e).toNat = s := by
    simp only [Format.targetExponent, totalExponent, Format.mantissaBits, Format.minExponent]
    omega
  rw [shiftToTargetExponent, shiftToExponent, hshift]

theorem shiftToTargetExponent_eq (m d : Nat) :
    let s := max (m.log2 - 52) (d - 1074)
    shiftToTargetExponent Format.binary64 m (-(d : Int)) .exact =
      ((ExtendedMantissa.mk m false false) >>> s, -(d : Int) + s) :=
  shiftToTargetExponent_of (by omega)

theorem lt_two_pow_of_div {m s n : Nat} (h : m.log2 ≤ n + s) : m / 2 ^ s < 2 ^ (n + 1) := by
  refine (Nat.div_lt_iff_lt_mul (Nat.two_pow_pos s)).mpr ?_
  rw [← Nat.pow_add]
  exact Nat.lt_of_lt_of_le Nat.lt_log2_self (Nat.pow_le_pow_right (by decide) (by omega))

theorem roundedMantissa_shiftRight_le_full {m s : Nat} (h : m.log2 ≤ 52 + s) :
    ((ExtendedMantissa.mk m false false) >>> s).roundedMantissa ≤ 2 ^ 53 := by
  have hround := roundedMantissa_le ((ExtendedMantissa.mk m false false) >>> s)
  have hdiv : m / 2 ^ s < 2 ^ 53 := lt_two_pow_of_div h
  rw [mantissa_shiftRight] at hround
  exact Nat.le_trans hround hdiv

theorem full_le_roundedMantissa_shiftRight {m : Nat} (hm : m ≠ 0) (h : 52 ≤ m.log2) :
    2 ^ 52 ≤ ((ExtendedMantissa.mk m false false) >>> (m.log2 - 52)).roundedMantissa := by
  have hround := le_roundedMantissa ((ExtendedMantissa.mk m false false) >>> (m.log2 - 52))
  rw [mantissa_shiftRight] at hround
  refine Nat.le_trans ((Nat.le_div_iff_mul_le (Nat.two_pow_pos _)).mpr ?_) hround
  rw [← Nat.pow_add, Nat.add_sub_cancel' h]
  exact Nat.log2_self_le hm

theorem Within.of_stored {k m : Nat} {e : Int} (d : Nat) (he : e = -(d : Int)) (hd : d ≤ 1074)
    (hfit : m < 2 ^ 53) (hstored : 2 ^ 52 ≤ m ∨ d = 1074) (hle : m ≤ k * 2 ^ d) :
    Within k (if h : m = 0 then .zero .positive
      else .finite .positive m e (Nat.pos_of_ne_zero h)) := by
  subst he
  split
  · exact .zero .positive
  · exact .finite _ hfit hd hstored hle

theorem round_within {m d k : Nat} (hm : 0 < m) (hle : m ≤ k * 2 ^ d) (hk : k < 2 ^ 53)
    (hlarge : 2 ^ 52 ≤ m ∨ 1074 ≤ d) :
    Within k (roundWithAccuracy Format.binary64 .positive m (-(d : Int)) .exact) := by
  have hlog : m.log2 < 53 + d := by
    refine (Nat.log2_lt (Nat.ne_of_gt hm)).mpr (Nat.lt_of_le_of_lt hle ?_)
    rw [Nat.pow_add]
    exact Nat.mul_lt_mul_of_pos_right hk (Nat.two_pow_pos d)
  -- The first shift leaves at most 53 bits, `r` when rounded. Only `r = 2 ^ 53` is shifted again.
  obtain ⟨s, hs⟩ : ∃ s, s = max (m.log2 - 52) (d - 1074) := ⟨_, rfl⟩
  obtain ⟨e, rfl⟩ : ∃ e, d = e + s := ⟨d - s, by omega⟩
  have he : e ≤ 1074 := by omega
  obtain ⟨r, hr⟩ : ∃ r, r = ((ExtendedMantissa.mk m false false) >>> s).roundedMantissa := ⟨_, rfl⟩
  have hrk : r ≤ k * 2 ^ e := by
    rw [hr]
    refine roundedMantissa_shiftRight_le ?_
    rwa [Nat.mul_assoc, ← Nat.pow_add]
  have hrfit : r ≤ 2 ^ 53 := hr ▸ roundedMantissa_shiftRight_le_full (by omega)
  have hrstored : 2 ^ 52 ≤ r ∨ e = 1074 := by
    by_cases hfull : s = m.log2 - 52 ∧ 52 ≤ m.log2
    · left
      rw [hr, hfull.1]
      exact full_le_roundedMantissa_shiftRight (Nat.ne_of_gt hm) hfull.2
    · right
      have hlarge' : 52 ≤ m.log2 ∨ 1074 ≤ e + s :=
        hlarge.imp_left (Nat.le_log2 (Nat.ne_of_gt hm)).mpr
      omega
  have hfirst : shiftToTargetExponent Format.binary64 m (-((e + s : Nat) : Int)) .exact =
      ((ExtendedMantissa.mk m false false) >>> s, -(e : Int)) := by
    rw [shiftToTargetExponent_eq, ← hs]
    congr 1
    omega
  have hsecond := shiftToTargetExponent_eq r e
  dsimp only at hsecond
  rw [roundWithAccuracy, hfirst]
  dsimp only
  rw [← hr, hsecond]
  dsimp only
  rcases Nat.eq_or_lt_of_le hrfit with hfull | hfit
  · have hlogr : max (r.log2 - 52) (e - 1074) = 1 := by
      rw [hfull, Nat.log2_two_pow]
      omega
    obtain ⟨e, rfl⟩ : ∃ e', e = e' + 1 := by
      refine Nat.exists_eq_succ_of_ne_zero fun hzero => ?_
      rw [hfull, hzero] at hrk
      omega
    rw [Nat.pow_succ, ← Nat.mul_assoc] at hrk
    rw [hlogr, mantissa_shiftRight]
    refine .of_stored e (by omega) (by omega) ?_ ?_ ?_
    all_goals dsimp only
    all_goals omega
  · have hlogr : r.log2 - 52 = 0 := by
      by_cases hzero : r = 0
      · rw [hzero]
        decide
      · have := (Nat.log2_lt hzero).mpr hfit
        omega
    have hshift : max (r.log2 - 52) (e - 1074) = 0 := by omega
    rw [hshift, mantissa_shiftRight, Nat.pow_zero, Nat.div_one]
    exact .of_stored e (by omega) he hfit hrstored hrk

theorem finite_congr {sign : Sign} {m m' : Nat} {e e' : Int} {hm : 0 < m} {hm' : 0 < m'}
    (hmantissa : m = m') (hexponent : e = e') :
    UnpackedFloat.finite sign m e hm = .finite sign m' e' hm' := by
  subst hmantissa hexponent
  rfl

theorem log2_mul_two_pow {m : Nat} (hm : 0 < m) (n : Nat) : (m * 2 ^ n).log2 = m.log2 + n := by
  have hne : m ≠ 0 := Nat.ne_of_gt hm
  have hlow : 2 ^ (m.log2 + n) ≤ m * 2 ^ n := by
    rw [Nat.pow_add]
    exact Nat.mul_le_mul_right _ (Nat.log2_self_le hne)
  have hhigh : m * 2 ^ n < 2 ^ (m.log2 + n + 1) := by
    rw [Nat.add_right_comm, Nat.pow_add]
    exact Nat.mul_lt_mul_of_pos_right Nat.lt_log2_self (Nat.two_pow_pos n)
  exact (Nat.log2_eq_iff (Nat.mul_ne_zero hne (Nat.ne_of_gt (Nat.two_pow_pos n)))).mpr ⟨hlow, hhigh⟩

theorem round_exact {m d s : Nat} (hm : 0 < m) (hlog : m.log2 = 52) (hd : d ≤ 1074) :
    roundWithAccuracy Format.binary64 .positive (m * 2 ^ s) (-((d + s : Nat) : Int)) .exact =
      .finite .positive m (-(d : Int)) hm := by
  have hfirst := shiftToTargetExponent_eq (m * 2 ^ s) (d + s)
  have hsecond := shiftToTargetExponent_eq m d
  have hs : max (m.log2 + s - 52) (d + s - 1074) = s := by omega
  have hzero : max (m.log2 - 52) (d - 1074) = 0 := by omega
  have hexponent : -((d + s : Nat) : Int) + (s : Int) = -(d : Int) := by omega
  dsimp only at hfirst hsecond
  rw [log2_mul_two_pow hm, hs, shiftRight_mul, hexponent] at hfirst
  rw [hzero] at hsecond
  rw [roundWithAccuracy, hfirst]
  dsimp only
  have hrounded : (ExtendedMantissa.mk m false false).roundedMantissa = m := rfl
  rw [hrounded, hsecond]
  dsimp only
  rw [mantissa_shiftRight, Nat.pow_zero, Nat.div_one, dif_neg (Nat.ne_of_gt hm)]
  exact finite_congr rfl (Int.add_zero _)

theorem unpackSign_pack (sign : Sign) (e : BitVec 11) (m : BitVec 52) :
    Sign.ofBitVec (@unpackSign Format.binary64 (packComponents Format.binary64 sign e m)) =
      sign := by
  have hbit : @unpackSign Format.binary64 (packComponents Format.binary64 sign e m) =
      sign.toBitVec := by
    ext i hi
    obtain rfl : i = 0 := by omega
    have hlast : (sign.toBitVec ++ e ++ m).getLsbD 63 = sign.toBitVec[0] := by
      rw [BitVec.getLsbD_append, BitVec.getLsbD_append]
      rfl
    simp [unpackSign, packComponents]
    exact hlast
  rw [hbit]
  cases sign <;> rfl

theorem toNat_implicit (m : BitVec 52) : (1#1 ++ m).toNat = 2 ^ 52 + m.toNat := by
  rw [BitVec.toNat_append, ← Nat.shiftLeft_add_eq_or_of_lt m.isLt, Nat.shiftLeft_eq]
  rfl

theorem ofNat_ne_of_toNat {b : Nat} (hb : b < 2047) (x : BitVec 11) (hx : x.toNat ≠ b) :
    BitVec.ofNat 11 b ≠ x := by
  intro heq
  have htoNat := congrArg BitVec.toNat heq
  rw [BitVec.toNat_ofNat, Nat.mod_eq_of_lt (by omega)] at htoNat
  exact hx htoNat.symm

theorem unpack_normal {m b : Nat} (hm : 0 < m) (hlow : 2 ^ 52 ≤ m) (hfit : m < 2 ^ 53)
    (hb : 0 < b) (htop : b < 2047) :
    unpack Format.binary64
        (packComponents Format.binary64 .positive (BitVec.ofNat 11 b) (BitVec.ofNat 52 m)) =
      .finite .positive m (b - 1075) hm := by
  have hexp : (BitVec.ofNat 11 b).toNat = b := by
    rw [BitVec.toNat_ofNat, Nat.mod_eq_of_lt (by omega)]
  have hmantissa : (1#1 ++ BitVec.ofNat 52 m).toNat = m := by
    rw [toNat_implicit, BitVec.toNat_ofNat]
    omega
  rw [UnpackedFloat.unpack]
  simp only [unpackMantissa_packComponents, unpackExponent_packComponents, unpackSign_pack]
  rw [if_neg (ofNat_ne_of_toNat htop (-1#11) (Nat.ne_of_gt htop)),
    if_neg (ofNat_ne_of_toNat htop 0#11 (Nat.ne_of_lt hb))]
  exact finite_congr hmantissa (by rw [hexp]; rfl)

theorem unpack_subnormal {m : Nat} (hm : 0 < m) (hfit : m < 2 ^ 52) :
    unpack Format.binary64 (packComponents Format.binary64 .positive 0#11 (BitVec.ofNat 52 m)) =
      .finite .positive m (-1074) hm := by
  have hmantissa : (BitVec.ofNat 52 m).toNat = m := by
    rw [BitVec.toNat_ofNat, Nat.mod_eq_of_lt hfit]
  have hne : BitVec.ofNat 52 m ≠ 0#52 := by
    intro heq
    have hzero : (0#52 : BitVec 52).toNat = 0 := rfl
    rw [heq, hzero] at hmantissa
    omega
  have htop : (0#11 : BitVec 11) ≠ -1#11 := by decide
  rw [UnpackedFloat.unpack]
  simp only [unpackMantissa_packComponents, unpackExponent_packComponents, unpackSign_pack]
  rw [if_neg htop, if_pos trivial, dif_neg hne]
  exact finite_congr hmantissa rfl

theorem unpack_pack {k : Nat} {f : UnpackedFloat} (h : Within k f) :
    (Float.Model.pack f).unpack = f := by
  cases h with
  | zero sign =>
    have hpack : UnpackedFloat.pack Format.binary64 (.zero sign) =
        packComponents Format.binary64 sign 0#11 0#52 := rfl
    rw [Float.Model.unpack, Float.Model.pack, UInt64.toBitVec_ofBitVec, hpack, UnpackedFloat.unpack]
    simp only [unpackMantissa_packComponents, unpackExponent_packComponents, unpackSign_pack]
    rfl
  | @finite m d hm hfit hd hstored hle =>
    have hbiased : (-(d : Int) + Format.exponentBias Format.binary64 +
        Format.mantissaBitsWithoutImplicit Format.binary64).toNat = 1075 - d := by
      simp only [Format.exponentBias]
      omega
    have hfinite : ¬2 ^ Format.exponentBits Format.binary64 ≤ 1075 - d + 1 := by
      simp only
      omega
    have hhigh := (Nat.log2_lt (Nat.ne_of_gt hm)).mpr hfit
    rw [Float.Model.unpack, Float.Model.pack, UInt64.toBitVec_ofBitVec, UnpackedFloat.pack]
    simp only [hbiased]
    rw [if_neg hfinite]
    by_cases hfull : 2 ^ 52 ≤ m
    · have hlow := (Nat.le_log2 (Nat.ne_of_gt hm)).mpr hfull
      have hlog : m.log2 + 1 = Format.mantissaBits Format.binary64 := by
        simp only [Format.mantissaBits]
        omega
      rw [if_pos hlog, unpack_normal hm hfull hfit (by omega) (by omega)]
      exact finite_congr rfl (by omega)
    · have hlow := (Nat.log2_lt (Nat.ne_of_gt hm)).mpr (Nat.lt_of_not_le hfull)
      have hlog : ¬m.log2 + 1 = Format.mantissaBits Format.binary64 := by
        simp only [Format.mantissaBits]
        omega
      obtain rfl := hstored.resolve_left hfull
      rw [if_neg hlog, unpack_subnormal hm (Nat.lt_of_not_le hfull)]
      rfl

theorem mul_within {j k : Nat} {f g : UnpackedFloat} (hf : Within j f) (hg : Within k g)
    (hjk : j * k < 2 ^ 53) : Within (j * k) (UnpackedFloat.mul Format.binary64 f g) := by
  cases hf with
  | zero sign =>
    cases hg with
    | zero sign' => exact .zero _
    | finite => exact .zero _
  | @finite m d hm hfit hd hstored hle =>
    cases hg with
    | zero sign' => exact .zero _
    | @finite n c hn hfit' hc hstored' hle' =>
      have hexponent : -(d : Int) + -(c : Int) = -((d + c : Nat) : Int) := by omega
      rw [UnpackedFloat.mul, hexponent]
      refine round_within (Nat.mul_pos hm hn) ?_ hjk ?_
      · rw [Nat.pow_add, Nat.mul_mul_mul_comm]
        exact Nat.mul_le_mul hle hle'
      · refine hstored'.imp (fun hfull => ?_) (fun hleast => ?_)
        · exact Nat.le_trans hfull (Nat.le_mul_of_pos_left n hm)
        · omega

def places (k : Nat) : Nat := 52 - k.log2

theorem log2_filled {k : Nat} (hpos : 0 < k) (hk : k < 2 ^ 53) : (k * 2 ^ places k).log2 = 52 := by
  have hlog := (Nat.log2_lt (Nat.ne_of_gt hpos)).mpr hk
  rw [log2_mul_two_pow hpos, places]
  omega

theorem filled_pos {k : Nat} (hpos : 0 < k) : 0 < k * 2 ^ places k :=
  Nat.mul_pos hpos (Nat.two_pow_pos _)

def exactly (k : Nat) (hpos : 0 < k) : UnpackedFloat :=
  .finite .positive (k * 2 ^ places k) (-(places k : Int)) (filled_pos hpos)

theorem exactly_within {k : Nat} (hpos : 0 < k) (hk : k < 2 ^ 53) : Within k (exactly k hpos) := by
  have hlog := log2_filled hpos hk
  have hne := Nat.ne_of_gt (filled_pos hpos)
  have hplaces : places k ≤ 52 := Nat.sub_le _ _
  have hfull : 2 ^ 52 ≤ k * 2 ^ places k := (Nat.le_log2 hne).mp (Nat.le_of_eq hlog.symm)
  have hfit : k * 2 ^ places k < 2 ^ 53 := (Nat.log2_lt hne).mp (by omega)
  exact .finite _ hfit (by omega) (.inl hfull) (Nat.le_refl _)

theorem ofNat_eq_exactly {k : Nat} (hpos : 0 < k) (hk : k < 2 ^ 53) :
    UnpackedFloat.ofNat Format.binary64 k = exactly k hpos := by
  have hlog := (Nat.log2_lt (Nat.ne_of_gt hpos)).mpr hk
  have hcompare : compare (k : Int) 0 = .gt := by
    rw [Int.compare_eq_gt]
    omega
  have hshift : ((0 : Int) - Format.binary64.targetExponent (totalExponent k 0)).toNat = places k := by
    simp only [Format.targetExponent, totalExponent, Format.mantissaBits, Format.minExponent, places]
    omega
  have hexponent : (0 : Int) - (places k : Int) = -((places k + 0 : Nat) : Int) := by omega
  rw [UnpackedFloat.ofNat, UnpackedFloat.ofInt, UnpackedFloat.normalize, hcompare]
  dsimp only
  rw [UnpackedFloat.round, Int.toNat_natCast]
  dsimp only
  rw [decreaseExponent, hshift]
  dsimp only
  rw [hexponent, Nat.shiftLeft_eq, ← Nat.mul_one (k * 2 ^ places k), ← Nat.pow_zero 2]
  exact round_exact (filled_pos hpos) (log2_filled hpos hk) (by rw [places]; omega)

def UpTo (k : Nat) (x : Float) : Prop := Within k x.toModel.unpack

theorem upTo_pack {k : Nat} {f : UnpackedFloat} (h : Within k f) :
    UpTo k (.ofModel (Float.Model.pack f)) := by
  have hunpack := unpack_pack h
  rw [UpTo]
  dsimp only
  rw [hunpack]
  exact h

theorem unpack_mul {j k : Nat} {x y : Float} (hx : UpTo j x) (hy : UpTo k y) (hjk : j * k < 2 ^ 53) :
    (x * y).toModel.unpack = UnpackedFloat.mul Format.binary64 x.toModel.unpack y.toModel.unpack :=
  unpack_pack (mul_within hx hy hjk)

theorem UpTo.mul {j k : Nat} {x y : Float} (hx : UpTo j x) (hy : UpTo k y)
    (hjk : j * k < 2 ^ 53) : UpTo (j * k) (x * y) :=
  upTo_pack (mul_within hx hy hjk)

theorem unpack_one : (Float.ofBits 0x3FF0000000000000).toModel.unpack =
    .finite .positive (2 ^ 52) (-((52 : Nat) : Int)) (by decide) := rfl

theorem unpack_ofNat {k : Nat} (hpos : 0 < k) (hk : k < 2 ^ 53) :
    (Scalar.ofNat k : Float).toModel.unpack = exactly k hpos := by
  have hone : UpTo 1 (Float.ofBits 0x3FF0000000000000) := by
    rw [UpTo, unpack_one]
    exact .finite _ (by decide) (by decide) (.inl (by decide)) (by decide)
  have hword : k.toUInt64.toFloat.toModel.unpack = exactly k hpos := by
    have hk' : k.toUInt64.toNat = k := by
      refine Nat.mod_eq_of_lt ?_
      omega
    have hmodel : k.toUInt64.toFloat.toModel =
        Float.Model.pack (UnpackedFloat.ofNat Format.binary64 k.toUInt64.toNat) := rfl
    rw [hmodel, hk', ofNat_eq_exactly hpos hk]
    exact unpack_pack (exactly_within hpos hk)
  have hproduct : (Scalar.ofNat k : Float) =
      k.toUInt64.toFloat * Float.ofBits 0x3FF0000000000000 := by
    change Float.ofScientific k false 0 = _
    rw [Float.ofScientific, dif_pos ⟨hk, by decide⟩]
    rfl
  have hupTo : UpTo k k.toUInt64.toFloat := by
    rw [UpTo, hword]
    exact exactly_within hpos hk
  have hexponent : -(places k : Int) + -((52 : Nat) : Int) = -((places k + 52 : Nat) : Int) := by omega
  rw [hproduct, unpack_mul hupTo hone (by omega), hword, unpack_one, exactly, UnpackedFloat.mul,
    hexponent]
  exact round_exact (filled_pos hpos) (log2_filled hpos hk) (by rw [places]; omega)

theorem upTo_ofNat {k : Nat} (hk : k < 2 ^ 53) : UpTo k (Scalar.ofNat k) := by
  rcases Nat.eq_zero_or_pos k with rfl | hpos
  · exact .zero .positive
  · rw [UpTo, unpack_ofNat hpos hk]
    exact exactly_within hpos hk

theorem lt_iff (x y : Float) :
    x < y ↔ x.toModel.unpack.compare y.toModel.unpack = some .lt := by
  have hlt : x < y ↔ (x.toModel.unpack.compare y.toModel.unpack == some .lt) = true := by
    change decide (x.toModel < y.toModel) = true ↔ _
    rw [decide_eq_true_iff]
    rfl
  rw [hlt, beq_iff_eq]

theorem stored_of_unpack {b : BitVec 64} {sign : Sign} {m : Nat} {e : Int} {hm : 0 < m}
    (h : unpack Format.binary64 b = .finite sign m e hm) :
    m < 2 ^ 53 ∧ -1074 ≤ e ∧ (2 ^ 52 ≤ m ∨ e = -1074) := by
  have hbias : (Format.exponentBias Format.binary64 : Int) = 1023 := rfl
  have hmantissa : (@unpackMantissa Format.binary64 b).toNat < 2 ^ 52 := BitVec.isLt _
  rw [UnpackedFloat.unpack] at h
  simp only [hbias] at h
  split at h
  · split at h <;> cases h
  · split at h
    next hexponent =>
      split at h
      · cases h
      · obtain ⟨-, rfl, rfl⟩ := UnpackedFloat.finite.inj h
        rw [hexponent, BitVec.toNat_zero]
        omega
    next hexponent =>
      obtain ⟨-, rfl, rfl⟩ := UnpackedFloat.finite.inj h
      have hpos : (@unpackExponent Format.binary64 b).toNat ≠ 0 :=
        fun hzero => hexponent (BitVec.eq_of_toNat_eq hzero)
      have himplicit := toNat_implicit (@unpackMantissa Format.binary64 b)
      refine ⟨?_, ?_, .inl ?_⟩
      · exact himplicit ▸ (by omega)
      · omega
      · exact himplicit ▸ Nat.le_add_right _ _

theorem upTo_unit (q : Float) : UpTo 1 (Quantile.unit q) := by
  rw [Quantile.unit]
  by_cases hpos : Scalar.ofNat 0 < q
  · rw [if_pos hpos]
    by_cases hone : Scalar.ofNat 1 < q
    · rw [if_pos hone]
      exact upTo_ofNat (by decide)
    · rw [if_neg hone]
      rw [lt_iff] at hpos hone
      have hzero : (Scalar.ofNat 0 : Float).toModel.unpack = .zero .positive := rfl
      have hunit : (Scalar.ofNat 1 : Float).toModel.unpack =
          .finite .positive (2 ^ 52) (-((52 : Nat) : Int)) (by decide) := rfl
      rw [hzero] at hpos
      rw [hunit] at hone
      rw [UpTo]
      cases hq : q.toModel.unpack with
      | notANumber =>
        rw [hq] at hpos
        cases hpos
      | infinity sign =>
        rw [hq] at hpos hone
        cases sign with
        | negative => cases hpos
        | positive => exact absurd rfl hone
      | zero sign => exact .zero sign
      | finite sign m e hm =>
        rw [hq] at hpos hone
        cases sign with
        | negative => cases hpos
        | positive =>
          obtain ⟨hfit, hleast, hstored⟩ := stored_of_unpack hq
          have horder : ¬(compare (-((52 : Nat) : Int)) e).then (compare (2 ^ 52) m) = .lt :=
            fun heq => hone (congrArg some heq)
          have he : e ≤ -52 := by
            by_contra hgt
            have hlt : compare (-((52 : Nat) : Int)) e = .lt := Int.compare_eq_lt.mpr (by omega)
            exact horder (by rw [hlt]; rfl)
          obtain ⟨d, rfl⟩ : ∃ d : Nat, e = -(d : Int) := ⟨(-e).toNat, by omega⟩
          refine .finite hm hfit (by omega) (hstored.imp_right (by omega)) ?_
          rw [Nat.one_mul]
          rcases Nat.eq_or_lt_of_le (show 52 ≤ d by omega) with rfl | hd
          · by_contra hgt
            have heq : compare (-((52 : Nat) : Int)) (-((52 : Nat) : Int)) = .eq := rfl
            have hlt : compare (2 ^ 52) m = .lt := Nat.compare_eq_lt.mpr (Nat.lt_of_not_le hgt)
            exact horder (by rw [heq, hlt]; rfl)
          · exact Nat.le_trans (Nat.le_of_lt hfit) (Nat.pow_le_pow_right (by decide) hd)
  · rw [if_neg hpos]
    exact .zero .positive

theorem toNat_ofNatClamp_le (n : Nat) : (UInt64.ofNatClamp n).toNat ≤ n := by
  rw [UInt64.ofNatClamp]
  split
  · exact Nat.le_refl n
  · have hsize : UInt64.size - 1 < UInt64.size := by decide
    have htoNat : (UInt64.ofNatLT (UInt64.size - 1) hsize).toNat = UInt64.size - 1 := rfl
    rw [htoNat]
    omega

theorem whole_le_div {x : Float} {m d : Nat} {hm : 0 < m}
    (h : x.toModel.unpack = .finite .positive m (-(d : Int)) hm) : Scalar.whole x ≤ m / 2 ^ d := by
  have hwhole : Scalar.whole x =
      (UInt64.ofNatClamp (x.toModel.unpack.toInt 0 (UInt64.size - 1)).toNat).toNat := rfl
  have hraise : (-(d : Int) - 0).toNat = 0 := by omega
  have hshift : (0 - (-(d : Int) - ((0 : Nat) : Int))).toNat = d := by omega
  have hfloor : (((ExtendedMantissa.mk (m <<< 0) false false) >>> d).mantissa : Int).toNat =
      m / 2 ^ d := by
    rw [mantissa_shiftRight, Int.toNat_natCast]
    rfl
  rw [hwhole, h]
  refine Nat.le_trans (toNat_ofNatClamp_le _) ?_
  rw [UnpackedFloat.toInt, roundToInt, decreaseExponent, hraise]
  dsimp only
  rw [shiftToExponent, hshift]
  dsimp only [Sign.apply, ExtendedMantissa.ofMantissaAndAccuracy]
  exact Nat.le_of_eq hfloor

theorem whole_of_zero {x : Float} {sign : Sign} (h : x.toModel.unpack = .zero sign) :
    Scalar.whole x = 0 := by
  have hwhole : Scalar.whole x =
      (UInt64.ofNatClamp (x.toModel.unpack.toInt 0 (UInt64.size - 1)).toNat).toNat := rfl
  rw [hwhole, h]
  rfl

theorem UpTo.whole_le {k : Nat} {x : Float} (h : UpTo k x) : Scalar.whole x ≤ k := by
  rw [UpTo] at h
  generalize hx : x.toModel.unpack = f at h
  cases h with
  | zero sign =>
    rw [whole_of_zero hx]
    exact Nat.zero_le k
  | @finite m d hm hfit hd hstored hle =>
    exact Nat.le_trans (whole_le_div hx) (Nat.div_le_of_le_mul (by rwa [Nat.mul_comm]))

theorem UpTo.eq_exactly {k : Nat} {x : Float} (h : UpTo k x) (hpos : 0 < k)
    (hwhole : k ≤ Scalar.whole x) : x.toModel.unpack = exactly k hpos := by
  rw [UpTo] at h
  generalize hx : x.toModel.unpack = f at h
  cases h with
  | zero sign =>
    rw [whole_of_zero hx] at hwhole
    omega
  | @finite m d hm hfit hd hstored hle =>
    have hge := (Nat.le_div_iff_mul_le (Nat.two_pow_pos d)).mp
      (Nat.le_trans hwhole (whole_le_div hx))
    obtain rfl : m = k * 2 ^ d := Nat.le_antisymm hle hge
    have hlog := log2_mul_two_pow hpos d
    have hhigh := (Nat.log2_lt (Nat.ne_of_gt hm)).mpr hfit
    have hlow : 52 ≤ (k * 2 ^ d).log2 ∨ d = 1074 :=
      hstored.imp_left (Nat.le_log2 (Nat.ne_of_gt hm)).mpr
    obtain rfl : d = places k := by
      rw [places]
      omega
    rfl

theorem position_lt (q : Float) {n : Nat} (h : 0 < n) (hn : n ≤ 2 ^ 53) :
    (Quantile.position q n).1 < n := by
  have hupTo := (upTo_unit q).mul (upTo_ofNat (k := n - 1) (by omega)) (by omega)
  have hwhole := hupTo.whole_le
  have hposition : (Quantile.position q n).1 =
      Scalar.whole (Quantile.unit q * Scalar.ofNat (n - 1)) := rfl
  omega

theorem sub_exactly {k : Nat} (hpos : 0 < k) :
    UnpackedFloat.sub Format.binary64 (exactly k hpos) (exactly k hpos) = .zero .positive := by
  rw [exactly, UnpackedFloat.sub]
  dsimp only
  rw [Int.sub_self]
  rfl

theorem UpTo.sub_whole {k : Nat} {x : Float} (h : UpTo k x) (hk : k < 2 ^ 53)
    (hwhole : Scalar.whole x = k) :
    ∃ sign, (x - Scalar.ofNat k).toModel.unpack = .zero sign := by
  have hmodel : (x - Scalar.ofNat k).toModel = Float.Model.pack
      (UnpackedFloat.sub Format.binary64 x.toModel.unpack (Scalar.ofNat k : Float).toModel.unpack) :=
    rfl
  rcases Nat.eq_zero_or_pos k with rfl | hpos
  · have hzero : (Scalar.ofNat 0 : Float).toModel.unpack = .zero .positive := rfl
    rw [UpTo] at h
    generalize x.toModel.unpack = f at h hmodel
    cases h with
    | zero sign =>
      rw [hmodel, hzero]
      cases sign with
      | positive => exact ⟨.positive, rfl⟩
      | negative => exact ⟨.negative, rfl⟩
    | finite hm hfit hd hstored hle => omega
  · rw [hmodel, h.eq_exactly hpos (Nat.le_of_eq hwhole.symm), unpack_ofNat hpos hk, sub_exactly]
    exact ⟨.positive, rfl⟩

theorem position_next (q : Float) {n : Nat} (h : 0 < n) (hn : n ≤ 2 ^ 53)
    (hfrac : Scalar.ofNat 0 < (Quantile.position q n).2) : (Quantile.position q n).1 + 1 < n := by
  have hupTo := (upTo_unit q).mul (upTo_ofNat (k := n - 1) (by omega)) (by omega)
  rw [Nat.one_mul] at hupTo
  have hlt := position_lt q h hn
  by_contra hlast
  have hwhole : Scalar.whole (Quantile.unit q * Scalar.ofNat (n - 1)) = n - 1 := by
    have hposition : (Quantile.position q n).1 =
        Scalar.whole (Quantile.unit q * Scalar.ofNat (n - 1)) := rfl
    omega
  obtain ⟨sign, hsub⟩ := hupTo.sub_whole (by omega) hwhole
  have hzero : (Scalar.ofNat 0 : Float).toModel.unpack = .zero .positive := rfl
  rw [Quantile.position, hwhole, lt_iff, hsub, hzero] at hfrac
  cases hfrac

end QuantileMonitor.Double
