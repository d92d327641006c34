import QuantileMonitor.Decimal.Positional
import QuantileMonitor.Proofs.Rounding
import QuantileMonitor.Proofs.Text.Numeral

/-!
# Decimal texts of doubles

A text with a fixed number of places shows the exact value of a double to the nearest unit of the last
place, the even one of two: the digits of the whole part, a point, and as many digits as there are places.
-/

namespace QuantileMonitor.Decimal

open Float.Model Float.Model.UnpackedFloat Text

def Pointed (places n : ℕ) (text : List Char) : Prop :=
  ∃ part, text = Nat.toDigits 10 (n / 10 ^ places) ++ '.' :: part ∧ part.length = places ∧ Digits part ∧
    Nat.ofDigitChars 10 part 0 = n % 10 ^ places

def signText : Sign → List Char
  | .negative => ['-']
  | .positive => []

/-- The text of a double to a number of places. -/
def Fixed (places : ℕ) (x : Float) (text : List Char) : Prop :=
  match x.toModel.unpack with
  | .notANumber => text = "NaN".toList
  | .infinity sign => text = signText sign ++ "inf".toList
  | .zero sign => ∃ digits, Pointed places 0 digits ∧ text = signText sign ++ digits
  | .finite sign m e _ =>
    ∃ digits, Pointed places (Double.nearest (m * 2 ^ e * 10 ^ places)) digits ∧
      text = signText sign ++ digits

def isNegative : Sign → Bool
  | .negative => true
  | .positive => false

theorem isNegative_ofBitVec (b : BitVec 1) : isNegative (Sign.ofBitVec b) = decide (b.toNat = 1) := by
  obtain rfl | rfl : b = 0#1 ∨ b = 1#1 := by
    revert b
    decide
  · rfl
  · rfl

theorem sign_toNat (b : BitVec 64) :
    (@unpackSign Format.binary64 b).toNat = b.toNat / 9223372036854775808 := by
  have hb := b.isLt
  simp only [unpackSign, BitVec.toNat_cast, BitVec.extractLsb_toNat, Nat.shiftRight_eq_div_pow]
  norm_num
  omega

theorem exponent_toNat (b : BitVec 64) :
    (@unpackExponent Format.binary64 b).toNat = b.toNat / Double.hidden % 2048 := by
  simp [unpackExponent, Nat.shiftRight_eq_div_pow, Double.hidden]

theorem mantissa_toNat (b : BitVec 64) :
    (@unpackMantissa Format.binary64 b).toNat = b.toNat % Double.hidden := by
  simp [unpackMantissa, Double.hidden]

theorem ofFloat_eq (x : Float) : Double.ofFloat x =
    match x.toModel.unpack with
    | .notANumber => .nan
    | .infinity sign => .infinite (isNegative sign)
    | .zero sign => .finite (isNegative sign) 0 (-1074)
    | .finite sign m e _ => .finite (isNegative sign) m e := by
  obtain ⟨b, hb⟩ : ∃ b : BitVec 64, b = x.toModel.toBits.toBitVec := ⟨_, rfl⟩
  have hbits : x.toBits.toNat = b.toNat := by
    rw [hb]
    rfl
  have hunpack : x.toModel.unpack = unpack Format.binary64 b := by
    rw [hb]
    rfl
  have hsign : decide (b.toNat / 9223372036854775808 = 1) =
      isNegative (Sign.ofBitVec (@unpackSign Format.binary64 b)) := by
    rw [isNegative_ofBitVec, sign_toNat]
  have hbias : (Format.exponentBias Format.binary64 : Int) = 1023 := rfl
  have htop : @unpackExponent Format.binary64 b = -1#11 ↔ b.toNat / Double.hidden % 2048 = 2047 := by
    rw [← exponent_toNat, ← BitVec.toNat_inj]
    rfl
  have hzero : @unpackExponent Format.binary64 b = 0#11 ↔ b.toNat / Double.hidden % 2048 = 0 := by
    rw [← exponent_toNat, ← BitVec.toNat_inj]
    rfl
  have hwhole : @unpackMantissa Format.binary64 b = 0#52 ↔ b.toNat % Double.hidden = 0 := by
    rw [← mantissa_toNat, ← BitVec.toNat_inj]
    rfl
  rw [Double.ofFloat, hbits, hunpack, Double.ofBits, UnpackedFloat.unpack]
  simp only [hbias, hsign, htop, hzero, hwhole]
  split_ifs with hfull hfraction hempty hfraction
  · rfl
  · rfl
  · rw [hfraction]
  · have he : -1074 = ((@unpackExponent Format.binary64 b).toNat : ℤ) - (1023 + (52 : ℕ)) + 1 := by
      rw [exponent_toNat, hempty]
      rfl
    exact congrArg₂ (Double.finite _) (mantissa_toNat b).symm he
  · have hm : Double.hidden + b.toNat % Double.hidden = (1#1 ++ @unpackMantissa Format.binary64 b).toNat := by
      rw [Double.toNat_implicit, mantissa_toNat]
      rfl
    have he : ((b.toNat / Double.hidden % 2048 : ℕ) : ℤ) - 1075 =
        (@unpackExponent Format.binary64 b).toNat - (1023 + (52 : ℕ)) := by
      rw [exponent_toNat]
      omega
    exact congrArg₂ (Double.finite _) hm he

theorem roundQuotient_eq (p : ℕ) {q : ℕ} (hq : 0 < q) : roundQuotient (p, q) = Double.nearest (p / q) := by
  have hfloor : ⌊(p / q : ℚ)⌋₊ = p / q := Nat.floor_div_eq_div p q
  have hpos : (0 : ℚ) < q := by exact_mod_cast hq
  have hdiv : (p : ℚ) = q * (p / q : ℕ) + (p % q : ℕ) := by exact_mod_cast (Nat.div_add_mod p q).symm
  have hlow : (p / q : ℚ) < (p / q : ℕ) + 1 / 2 ↔ 2 * (p % q) < q := by
    rw [div_lt_iff₀ hpos]
    constructor
    · intro h
      have : (2 * (p % q : ℕ) : ℚ) < q := by linarith
      exact_mod_cast this
    · intro h
      have : (2 * (p % q : ℕ) : ℚ) < q := by exact_mod_cast h
      linarith
  have hhigh : ((p / q : ℕ) + 1 / 2 : ℚ) < p / q ↔ q < 2 * (p % q) := by
    rw [lt_div_iff₀ hpos]
    constructor
    · intro h
      have : (q : ℚ) < (2 * (p % q : ℕ) : ℚ) := by linarith
      exact_mod_cast this
    · intro h
      have : (q : ℚ) < (2 * (p % q : ℕ) : ℚ) := by exact_mod_cast h
      linarith
  simp only [roundQuotient, Double.nearest, hfloor, hlow, hhigh]

theorem zpow_eq_div {b : ℚ} (hb : b ≠ 0) (z : ℤ) : b ^ z = b ^ z.toNat / b ^ (-z).toNat := by
  have hz : z = z.toNat - (-z).toNat := by omega
  rw [← zpow_natCast, ← zpow_natCast, ← zpow_sub₀ hb, ← hz]

theorem quotient_pos (m : ℕ) (e : ℤ) : 0 < (quotient m e).2 := Nat.pow_pos two_pos

theorem quotient_div (m : ℕ) (e : ℤ) : ((quotient m e).1 / (quotient m e).2 : ℚ) = m * 2 ^ e := by
  rw [zpow_eq_div two_ne_zero e]
  simp only [quotient, Nat.pow_eq]
  push_cast
  ring

theorem scale_quotient_pos (m : ℕ) (e : ℤ) (places : ℕ) : 0 < (scale (quotient m e) places).2 :=
  Nat.mul_pos (quotient_pos m e) (Nat.pow_pos (by decide))

theorem scale_quotient (m : ℕ) (e : ℤ) (places : ℕ) :
    ((scale (quotient m e) places).1 / (scale (quotient m e) places).2 : ℚ) = m * 2 ^ e * 10 ^ places := by
  have hplaces : (-(places : ℤ)).toNat = 0 := by omega
  rw [← quotient_div]
  simp only [scale, hplaces, Int.toNat_natCast, Nat.pow_eq]
  push_cast
  ring

theorem paddedDigits_succ {least : ℕ} (h : 0 < least) (n : ℕ) :
    paddedDigits (least + 1) n = paddedDigits least (n / 10) ++ [Nat.digitChar (n % 10)] := by
  obtain hlt | hle := Nat.lt_or_ge n 10
  · rw [paddedDigits, paddedDigits, Nat.toDigits_of_lt_base hlt, Nat.div_eq_of_lt hlt, Nat.mod_eq_of_lt hlt]
    obtain ⟨least, rfl⟩ := Nat.exists_eq_add_of_lt h
    simp [List.replicate_succ']
  · rw [paddedDigits, paddedDigits, Nat.toDigits_of_base_le (by decide) hle]
    simp

theorem exists_paddedDigits (places n : ℕ) :
    ∃ part, paddedDigits (places + 1) n = Nat.toDigits 10 (n / 10 ^ places) ++ part ∧
      part.length = places ∧ Digits part ∧ Nat.ofDigitChars 10 part 0 = n % 10 ^ places := by
  induction places generalizing n with
  | zero =>
    refine ⟨[], ?_, rfl, nofun, (Nat.mod_one n).symm⟩
    have hlength : 0 < (Nat.toDigits 10 n).length := List.length_pos_of_ne_nil Nat.toDigits_ne_nil
    have hzeros : 0 + 1 - (Nat.toDigits 10 n).length = 0 := by omega
    simp [paddedDigits, hzeros]
  | succ places ih =>
    obtain ⟨part, hpadded, hlength, hdigits, hvalue⟩ := ih (n / 10)
    refine ⟨part ++ [Nat.digitChar (n % 10)], ?_, ?_, ?_, ?_⟩
    · rw [paddedDigits_succ (Nat.succ_pos places), hpadded, Nat.div_div_eq_div_mul, ← Nat.pow_succ',
        List.append_assoc]
    · simp [hlength]
    · intro c hc
      rcases List.mem_append.mp hc with hc | hc
      · exact hdigits c hc
      · rw [List.mem_singleton.mp hc]
        rw [Nat.isDigit_digitChar]
        exact decide_eq_true (Nat.mod_lt n (by decide))
    · have hn : n % 10 ^ (places + 1) = 10 * (n / 10 % 10 ^ places) + n % 10 := by
        rw [Nat.pow_succ', Nat.mod_mul, Nat.add_comm]
      have hlast := Nat.toNat_digitChar_sub_48_of_lt_ten (Nat.mod_lt n (by decide : 0 < 10))
      rw [Nat.ofDigitChars_append, hvalue, hn, Nat.ofDigitChars_cons, Nat.ofDigitChars_nil]
      exact congrArg _ hlast

theorem pointed_pointed {places : ℕ} (h : places ≠ 0) (n : ℕ) : Pointed places n (pointed n places) := by
  obtain ⟨part, hpadded, hlength, hdigits, hvalue⟩ := exists_paddedDigits places n
  refine ⟨part, ?_, hlength, hdigits, hvalue⟩
  have hcut : (paddedDigits (places + 1) n).length - places = (Nat.toDigits 10 (n / 10 ^ places)).length := by
    rw [hpadded, List.length_append, hlength, Nat.add_sub_cancel]
  rw [pointed, if_neg h]
  dsimp only
  rw [hcut, hpadded, List.take_left, List.drop_left]

theorem toList_signed (sign : Sign) (text : List Char) :
    (signed (isNegative sign) text).toList = signText sign ++ text := by
  cases sign <;> simp [signed, isNegative, signText]

theorem fixed_text {places : ℕ} (h : places ≠ 0) (x : Float) : Fixed places x (fixed places x).toList := by
  rw [Fixed, fixed, ofFloat_eq]
  cases x.toModel.unpack with
  | notANumber => rfl
  | infinity sign => exact toList_signed sign _
  | zero sign =>
    refine ⟨_, pointed_pointed h 0, ?_⟩
    have hzero : roundQuotient (scale (quotient 0 (-1074)) places) = 0 := by
      have hpos := scale_quotient_pos 0 (-1074) places
      rw [← Prod.eta (scale _ _), roundQuotient_eq _ hpos, scale_quotient]
      simpa using Double.nearest_natCast 0
    exact (toList_signed sign _).trans (by rw [hzero])
  | finite sign m e hm =>
    have hround : roundQuotient (scale (quotient m e) places) = Double.nearest (m * 2 ^ e * 10 ^ places) := by
      rw [← scale_quotient, ← roundQuotient_eq _ (scale_quotient_pos m e places)]
    refine ⟨_, pointed_pointed h _, ?_⟩
    exact (toList_signed sign _).trans (by rw [hround])

end QuantileMonitor.Decimal
