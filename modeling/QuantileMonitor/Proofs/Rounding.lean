import QuantileMonitor.Proofs.Scalar
import QuantileMonitor.Proofs.Share

/-!
# Doubles as rationals

A double with a full mantissa stands for a rational. What an operation gives is the exact result, rounded
to the nearest double, and rounding keeps the order. So a share that is computed in doubles moves with the
count that it is the share of.
-/

namespace QuantileMonitor.Double

open Float.Model Float.Model.UnpackedFloat

variable {m n : ℕ} {e : ℤ} {x y : ℚ}

def nearest (x : ℚ) : ℕ :=
  if x < ⌊x⌋₊ + 1 / 2 then ⌊x⌋₊ else if ⌊x⌋₊ + 1 / 2 < x then ⌊x⌋₊ + 1 else ⌊x⌋₊ + ⌊x⌋₊ % 2

theorem floor_le_nearest (x : ℚ) : ⌊x⌋₊ ≤ nearest x := by
  unfold nearest
  split_ifs <;> omega

theorem nearest_le_floor (x : ℚ) : nearest x ≤ ⌊x⌋₊ + 1 := by
  unfold nearest
  split_ifs <;> omega

@[simp] theorem nearest_natCast (n : ℕ) : nearest n = n := by
  have hlow : (n : ℚ) < n + 1 / 2 := by linarith
  simp only [nearest, Nat.floor_natCast, if_pos hlow]

theorem nearest_mono (h : x ≤ y) : nearest x ≤ nearest y := by
  obtain hlt | heq := (Nat.floor_mono h).lt_or_eq
  · have := nearest_le_floor x
    have := floor_le_nearest y
    omega
  · unfold nearest
    rw [heq]
    split_ifs
    all_goals first | omega | (exfalso; linarith)

/-- The mantissa is the whole part; the two bits say how the rest compares to a half. -/
inductive Represents : ExtendedMantissa → ℚ → Prop
  | exact {m : ℕ} {x : ℚ} (h : x = m) : Represents ⟨m, false, false⟩ x
  | below {m : ℕ} {x : ℚ} (hlow : m < x) (hhigh : x < m + 1 / 2) : Represents ⟨m, false, true⟩ x
  | middle {m : ℕ} {x : ℚ} (h : x = m + 1 / 2) : Represents ⟨m, true, false⟩ x
  | above {m : ℕ} {x : ℚ} (hlow : m + 1 / 2 < x) (hhigh : x < m + 1) : Represents ⟨m, true, true⟩ x

namespace Represents

variable {em : ExtendedMantissa}

theorem between (h : Represents em x) :
    (em.roundBit || em.stickyBit) = false ∧ x = em.mantissa ∨
      (em.roundBit || em.stickyBit) = true ∧ em.mantissa < x ∧ x < em.mantissa + 1 := by
  cases h with
  | exact h => exact .inl ⟨rfl, h⟩
  | below hlow hhigh => exact .inr ⟨rfl, hlow, by linarith⟩
  | middle h => exact .inr ⟨rfl, by linarith, by linarith⟩
  | above hlow hhigh => exact .inr ⟨rfl, by linarith, hhigh⟩

theorem floor (h : Represents em x) : ⌊x⌋₊ = em.mantissa := by
  have hm : (0 : ℚ) ≤ em.mantissa := Nat.cast_nonneg _
  obtain ⟨-, rfl⟩ | ⟨-, hlow, hhigh⟩ := h.between
  · exact Nat.floor_natCast _
  · exact (Nat.floor_eq_iff (hm.trans hlow.le)).mpr ⟨hlow.le, hhigh⟩

theorem roundedMantissa (h : Represents em x) : em.roundedMantissa = nearest x := by
  have hfloor := h.floor
  unfold nearest
  rw [hfloor]
  cases h with
  | exact h =>
    rw [if_pos (by linarith)]
    rfl
  | below hlow hhigh =>
    rw [if_pos hhigh]
    rfl
  | middle h =>
    rw [if_neg (by linarith), if_neg (by linarith)]
    rfl
  | above hlow hhigh =>
    rw [if_neg (by linarith), if_pos hlow]
    rfl

theorem shiftRightOne (h : Represents em x) : Represents em.shiftRightOne (x / 2) := by
  obtain ⟨k, heven | hodd⟩ := Nat.even_or_odd' em.mantissa
  · have hshift : em.shiftRightOne = ⟨k, false, em.roundBit || em.stickyBit⟩ := by
      simp [ExtendedMantissa.shiftRightOne, heven]
    obtain ⟨hbits, h⟩ | ⟨hbits, hlow, hhigh⟩ := h.between
    all_goals
      rw [hshift, hbits]
      simp only [heven, Nat.cast_mul, Nat.cast_ofNat] at *
    · exact .exact (by linarith)
    · exact .below (by linarith) (by linarith)
  · have hhalf : (2 * k + 1) / 2 = k := by omega
    have hshift : em.shiftRightOne = ⟨k, true, em.roundBit || em.stickyBit⟩ := by
      simp [ExtendedMantissa.shiftRightOne, hodd, hhalf]
    obtain ⟨hbits, h⟩ | ⟨hbits, hlow, hhigh⟩ := h.between
    all_goals
      rw [hshift, hbits]
      simp only [hodd, Nat.cast_add, Nat.cast_mul, Nat.cast_ofNat, Nat.cast_one] at *
    · exact .middle (by linarith)
    · exact .above (by linarith) (by linarith)

theorem shiftRight (h : Represents em x) (n : ℕ) : Represents (em >>> n) (x / 2 ^ n) := by
  induction n with
  | zero =>
    rw [pow_zero, div_one]
    exact h
  | succ n ih =>
    rw [pow_succ, ← div_div]
    exact ih.shiftRightOne

theorem div (m : ℕ) (hn : 0 < n) :
    Represents (.ofMantissaAndAccuracy (m / n) (accuracyOfFraction (m % n) n)) (m / n : ℚ) := by
  have hpos : (0 : ℚ) < n := Nat.cast_pos.mpr hn
  have hlt : ((m % n : ℕ) : ℚ) < n := Nat.cast_lt.mpr (Nat.mod_lt m hn)
  have hm : (m : ℚ) = (m / n : ℕ) * n + (m % n : ℕ) := by exact_mod_cast (Nat.div_add_mod' m n).symm
  have hexact : (m : ℚ) / n = (m / n : ℕ) + (m % n : ℕ) / n := by
    rw [div_eq_iff hpos.ne', add_mul, div_mul_cancel₀ _ hpos.ne']
    exact hm
  rw [hexact]
  generalize m / n = q at *
  generalize m % n = r at *
  unfold accuracyOfFraction
  split_ifs with hzero
  · exact .exact (by rw [hzero]; simp)
  · have hr : (0 : ℚ) < r / n := div_pos (Nat.cast_pos.mpr (Nat.pos_of_ne_zero hzero)) hpos
    have hone : (r : ℚ) / n < 1 := (div_lt_one hpos).mpr hlt
    cases hcompare : compare (2 * r) n with
    | lt =>
      have : (2 * r : ℚ) < n := by exact_mod_cast Nat.compare_eq_lt.mp hcompare
      have : (r : ℚ) / n < 1 / 2 := (div_lt_iff₀ hpos).mpr (by linarith)
      exact .below (by linarith) (by linarith)
    | eq =>
      have : (2 * r : ℚ) = n := by exact_mod_cast Nat.compare_eq_eq.mp hcompare
      have : (r : ℚ) / n = 1 / 2 := (div_eq_iff hpos.ne').mpr (by linarith)
      exact .middle (by linarith)
    | gt =>
      have : (n : ℚ) < 2 * r := by exact_mod_cast Nat.compare_eq_gt.mp hcompare
      have : 1 / 2 < (r : ℚ) / n := (lt_div_iff₀ hpos).mpr (by linarith)
      exact .above (by linarith) (by linarith)

end Represents

theorem log_eq (hlow : 2 ^ e ≤ x) (hhigh : x < 2 ^ (e + 1)) : Int.log 2 x = e := by
  have hx : 0 < x := lt_of_lt_of_le (by positivity) hlow
  have hle := (Int.zpow_le_iff_le_log (b := 2) (by decide) hx).mp (by exact_mod_cast hlow)
  have hlt := (Int.lt_zpow_iff_log_lt (b := 2) (by decide) hx).mp (by exact_mod_cast hhigh)
  omega

def place (x : ℚ) : ℤ := Int.log 2 x - 52

/-- The nearest number with a full mantissa. -/
def rounded (x : ℚ) : ℚ := nearest (x / 2 ^ place x) * 2 ^ place x

theorem two_pow_mul_place {j : ℕ} {i : ℤ} (h : place x + j = i) : (2 : ℚ) ^ j * 2 ^ place x = 2 ^ i := by
  rw [← zpow_natCast, ← zpow_add₀ two_ne_zero, add_comm, h]

theorem two_pow_52_mul_place : (2 : ℚ) ^ 52 * 2 ^ place x = 2 ^ Int.log 2 x :=
  two_pow_mul_place (by rw [place]; push_cast; ring)

theorem two_pow_53_mul_place : (2 : ℚ) ^ 53 * 2 ^ place x = 2 ^ (Int.log 2 x + 1) :=
  two_pow_mul_place (by rw [place]; push_cast; ring)

theorem full_div_place (hx : 0 < x) : 2 ^ 52 ≤ x / 2 ^ place x ∧ x / 2 ^ place x < 2 ^ 53 := by
  have hplace : (0 : ℚ) < 2 ^ place x := by positivity
  rw [le_div_iff₀ hplace, div_lt_iff₀ hplace, two_pow_52_mul_place, two_pow_53_mul_place]
  exact ⟨Int.zpow_log_le_self (by decide) hx, Int.lt_zpow_succ_log_self (by decide) x⟩

theorem nearest_div_place (hx : 0 < x) :
    2 ^ 52 ≤ nearest (x / 2 ^ place x) ∧ nearest (x / 2 ^ place x) ≤ 2 ^ 53 := by
  obtain ⟨hlow, hhigh⟩ := full_div_place hx
  have hlow' : nearest ((2 ^ 52 : ℕ) : ℚ) ≤ nearest (x / 2 ^ place x) := nearest_mono (by exact_mod_cast hlow)
  have hhigh' : nearest (x / 2 ^ place x) ≤ nearest ((2 ^ 53 : ℕ) : ℚ) :=
    nearest_mono (by exact_mod_cast hhigh.le)
  rw [nearest_natCast] at hlow' hhigh'
  exact ⟨hlow', hhigh'⟩

theorem rounded_nonneg (x : ℚ) : 0 ≤ rounded x := by
  unfold rounded
  positivity

@[simp] theorem rounded_zero : rounded 0 = 0 := by
  have hzero : nearest (0 : ℚ) = 0 := by exact_mod_cast nearest_natCast 0
  rw [rounded, zero_div, hzero, Nat.cast_zero, zero_mul]

theorem two_pow_log_le_rounded (hx : 0 < x) : 2 ^ Int.log 2 x ≤ rounded x := by
  rw [← two_pow_52_mul_place, rounded]
  have := (nearest_div_place hx).1
  gcongr
  exact_mod_cast this

theorem rounded_pos (hx : 0 < x) : 0 < rounded x :=
  lt_of_lt_of_le (by positivity) (two_pow_log_le_rounded hx)

theorem rounded_le_two_pow_log (hx : 0 < x) : rounded x ≤ 2 ^ (Int.log 2 x + 1) := by
  rw [← two_pow_53_mul_place, rounded]
  have := (nearest_div_place hx).2
  gcongr
  exact_mod_cast this

theorem rounded_mono (hx : 0 ≤ x) (h : x ≤ y) : rounded x ≤ rounded y := by
  obtain rfl | hpos := hx.eq_or_lt
  · rw [rounded_zero]
    exact rounded_nonneg y
  obtain hlt | heq := (Int.log_mono_right (b := 2) hpos h).lt_or_eq
  · -- A power of two lies between them.
    calc rounded x ≤ 2 ^ (Int.log 2 x + 1) := rounded_le_two_pow_log hpos
      _ ≤ 2 ^ Int.log 2 y := zpow_le_zpow_right₀ one_le_two (by omega)
      _ ≤ rounded y := two_pow_log_le_rounded (hpos.trans_le h)
  · unfold rounded place
    rw [heq]
    have : nearest (x / 2 ^ (Int.log 2 y - 52)) ≤ nearest (y / 2 ^ (Int.log 2 y - 52)) :=
      nearest_mono (by gcongr)
    gcongr

theorem rounded_of_filled (hlow : 2 ^ 52 ≤ m) (hhigh : m < 2 ^ 53) (e : ℤ) :
    rounded (m * 2 ^ e) = m * 2 ^ e := by
  have hlog : Int.log 2 (m * 2 ^ e : ℚ) = 52 + e := by
    apply log_eq
    · rw [zpow_add₀ two_ne_zero]
      gcongr
      exact_mod_cast hlow
    · rw [add_right_comm, zpow_add₀ two_ne_zero]
      gcongr
      exact_mod_cast hhigh
  have hplace : place (m * 2 ^ e : ℚ) = e := by
    rw [place, hlog]
    omega
  rw [rounded, hplace, mul_div_cancel_right₀ _ (by positivity), nearest_natCast]

theorem rounded_two_pow (k : ℤ) : rounded (2 ^ k) = 2 ^ k := by
  have h := rounded_of_filled (Nat.le_refl (2 ^ 52)) (by decide) (k - 52)
  have hpow : ((2 ^ 52 : ℕ) : ℚ) * 2 ^ (k - 52) = 2 ^ k := by
    rw [Nat.cast_pow, Nat.cast_ofNat, ← zpow_natCast, ← zpow_add₀ two_ne_zero]
    congr 1
    push_cast
    ring
  rwa [hpow] at h

def InRange (k : ℕ) (x : ℚ) : Prop := x = 0 ∨ 2 ^ (-k : ℤ) ≤ x ∧ x ≤ 2 ^ (k : ℤ)

theorem InRange.nonneg {k : ℕ} (h : InRange k x) : 0 ≤ x := by
  obtain rfl | ⟨hlow, -⟩ := h
  · rfl
  · exact le_trans (by positivity) hlow

theorem InRange.mul {j k : ℕ} (hx : InRange j x) (hy : InRange k y) : InRange (j + k) (x * y) := by
  obtain rfl | ⟨hxlow, hxhigh⟩ := hx
  · exact .inl (zero_mul y)
  obtain rfl | ⟨hylow, hyhigh⟩ := hy
  · exact .inl (mul_zero x)
  right
  push_cast
  rw [neg_add, zpow_add₀ two_ne_zero, zpow_add₀ two_ne_zero]
  constructor
  · exact mul_le_mul hxlow hylow (by positivity) (le_trans (by positivity) hxlow)
  · exact mul_le_mul hxhigh hyhigh (le_trans (by positivity) hylow) (by positivity)

theorem InRange.inv {k : ℕ} (hx : InRange k x) : InRange k x⁻¹ := by
  obtain rfl | ⟨hlow, hhigh⟩ := hx
  · exact .inl inv_zero
  have hpos : 0 < x := lt_of_lt_of_le (by positivity) hlow
  right
  constructor
  · rw [zpow_neg]
    gcongr
  · rw [inv_le_comm₀ hpos (by positivity), ← zpow_neg]
    exact hlow

theorem InRange.div {j k : ℕ} (hx : InRange j x) (hy : InRange k y) : InRange (j + k) (x / y) := by
  rw [div_eq_mul_inv]
  exact hx.mul hy.inv

theorem InRange.mono {j k : ℕ} (hx : InRange j x) (h : j ≤ k) : InRange k x := by
  obtain rfl | ⟨hlow, hhigh⟩ := hx
  · exact .inl rfl
  · right
    constructor
    · exact (zpow_le_zpow_right₀ one_le_two (by omega)).trans hlow
    · exact hhigh.trans (zpow_le_zpow_right₀ one_le_two (by omega))

theorem InRange.add {k : ℕ} (hx : InRange k x) (hy : InRange k y) : InRange (k + 1) (x + y) := by
  obtain rfl | ⟨hlow, hhigh⟩ := hx
  · rw [zero_add]
    exact hy.mono (by omega)
  have hy0 := hy.nonneg
  have hle : y ≤ 2 ^ (k : ℤ) := by
    obtain rfl | ⟨-, hyhigh⟩ := hy
    · positivity
    · exact hyhigh
  right
  constructor
  · calc (2 : ℚ) ^ (-(k + 1 : ℕ) : ℤ) ≤ 2 ^ (-k : ℤ) := zpow_le_zpow_right₀ one_le_two (by omega)
      _ ≤ x := hlow
      _ ≤ x + y := by linarith
  · push_cast
    rw [zpow_add_one₀ two_ne_zero]
    linarith

theorem InRange.log {k : ℕ} (hx : InRange k x) (hpos : 0 < x) :
    -(k : ℤ) ≤ Int.log 2 x ∧ Int.log 2 x ≤ k := by
  obtain rfl | ⟨hlow, hhigh⟩ := hx
  · exact absurd hpos (lt_irrefl 0)
  constructor
  · exact (Int.zpow_le_iff_le_log (by decide) hpos).mp (by exact_mod_cast hlow)
  · have := Int.log_mono_right (b := 2) hpos hhigh
    have hpow := Int.log_zpow (R := ℚ) (b := 2) (by decide) k
    push_cast at hpow
    omega

theorem InRange.rounded {k : ℕ} (hx : InRange k x) : InRange k (rounded x) := by
  obtain rfl | ⟨hlow, hhigh⟩ := hx
  · exact .inl rounded_zero
  right
  rw [← rounded_two_pow (-k), ← rounded_two_pow k]
  constructor
  · exact rounded_mono (by positivity) hlow
  · exact rounded_mono (le_trans (by positivity) hlow) hhigh

inductive Reads : UnpackedFloat → ℚ → Prop
  | zero : Reads (.zero .positive) 0
  | full {m : ℕ} {e : ℤ} (h : Full m e) : Reads (.finite .positive m e h.pos) (m * 2 ^ e)

theorem mantissa_of_accuracy (m : ℕ) (a : Accuracy) :
    (ExtendedMantissa.ofMantissaAndAccuracy m a).mantissa = m := by
  obtain _ | o := a
  · rfl
  · cases o <;> rfl

theorem Represents.bounds {a : Accuracy} (hx : Represents (.ofMantissaAndAccuracy m a) (x / 2 ^ e))
    (hm : m ≠ 0) : m * 2 ^ e ≤ x ∧ x < (m + 1) * 2 ^ e := by
  have hfloor := hx.floor
  rw [mantissa_of_accuracy, Nat.floor_eq_iff' hm] at hfloor
  have hpow : (0 : ℚ) < 2 ^ e := by positivity
  rwa [le_div_iff₀ hpow, div_lt_iff₀ hpow] at hfloor

theorem Represents.log {a : Accuracy} (hx : Represents (.ofMantissaAndAccuracy m a) (x / 2 ^ e))
    (hm : m ≠ 0) : Int.log 2 x = m.log2 + e := by
  obtain ⟨hlow, hhigh⟩ := hx.bounds hm
  apply log_eq
  · calc (2 : ℚ) ^ (m.log2 + e : ℤ) = (2 ^ m.log2 : ℕ) * 2 ^ e := by
          rw [zpow_add₀ two_ne_zero]
          norm_cast
      _ ≤ m * 2 ^ e := by
          gcongr
          exact_mod_cast Nat.log2_self_le hm
      _ ≤ x := hlow
  · calc x < (m + 1) * 2 ^ e := hhigh
      _ ≤ (2 ^ (m.log2 + 1) : ℕ) * 2 ^ e := by
          gcongr
          exact_mod_cast Nat.lt_log2_self
      _ = 2 ^ (m.log2 + e + 1 : ℤ) := by
          rw [add_right_comm, zpow_add₀ two_ne_zero]
          norm_cast

theorem reads_round {a : Accuracy} {k : ℕ} (hm : 52 ≤ m.log2)
    (hx : Represents (.ofMantissaAndAccuracy m a) (x / 2 ^ e)) (hrange : InRange k x) (hk : k ≤ 1000) :
    Reads (roundWithAccuracy Format.binary64 .positive m e a) (rounded x) := by
  have hne := ne_zero_of_log2 hm
  have hlog := hx.log hne
  have hplace : place x = e + (m.log2 - 52 : ℕ) := by
    rw [Double.place, hlog]
    omega
  have hpos : 0 < x := lt_of_lt_of_le (by positivity) (hx.bounds hne).1
  obtain ⟨hleast, hgreatest⟩ := hrange.log hpos
  have hshift := hx.shiftRight (m.log2 - 52)
  rw [div_div, ← zpow_natCast, ← zpow_add₀ two_ne_zero, ← hplace] at hshift
  obtain ⟨hlow, hhigh⟩ := nearest_div_place hpos
  rw [roundWithAccuracy, shiftToTargetExponent_of (s := m.log2 - 52) (by omega)]
  dsimp only
  rw [hshift.roundedMantissa, ← hplace]
  obtain ⟨r, e', hfull, hr, hagain⟩ := shift_again hlow hhigh (e := place x) (by omega) (by omega)
  rw [hagain]
  dsimp only
  have hvalue : rounded x = r * 2 ^ e' := by
    rw [rounded]
    obtain ⟨rfl, rfl⟩ | ⟨hm, rfl, rfl⟩ := hr
    · rfl
    · rw [hm, zpow_add₀ two_ne_zero]
      push_cast
      ring
  rw [hvalue, dif_neg hfull.pos.ne']
  exact .full hfull

variable {f g : UnpackedFloat} {k : ℕ}

theorem Reads.unpack_pack (h : Reads f x) : (Float.Model.pack f).unpack = f := by
  cases h with
  | zero => rfl
  | full h => exact h.unpack_pack

theorem Reads.mul (hf : Reads f x) (hg : Reads g y) (hrange : InRange k (x * y)) (hk : k ≤ 1000) :
    Reads (UnpackedFloat.mul Format.binary64 f g) (rounded (x * y)) := by
  cases hf with
  | zero =>
    rw [zero_mul, rounded_zero]
    cases hg <;> exact .zero
  | @full m e hm =>
    cases hg with
    | zero =>
      rw [mul_zero, rounded_zero]
      exact .zero
    | @full n e' hn =>
      refine reads_round ?_ (.exact ?_) hrange hk
      · exact le_log2_of_le (hm.low.trans (Nat.le_mul_of_pos_right m hn.pos))
      · rw [div_eq_iff (by positivity), zpow_add₀ two_ne_zero]
        push_cast
        ring

theorem log2_quotient {e' : ℤ} (hm : Full m e) (hn : Full n e') :
    52 ≤ (m * 2 ^ 53 / n).log2 ∧ (m * 2 ^ 53 / n).log2 ≤ 53 := by
  have hmlow := hm.low
  have hmhigh := hm.high
  have hnlow := hn.low
  have hnhigh := hn.high
  have hlow : 2 ^ 52 ≤ m * 2 ^ 53 / n := (Nat.le_div_iff_mul_le hn.pos).mpr (by omega)
  have hhigh : m * 2 ^ 53 / n < 2 ^ 54 := (Nat.div_lt_iff_lt_mul hn.pos).mpr (by omega)
  have hne : m * 2 ^ 53 / n ≠ 0 := by omega
  exact ⟨le_log2_of_le hlow, Nat.le_of_lt_succ ((Nat.log2_lt hne).mpr hhigh)⟩

theorem Reads.div (hf : Reads f x) (hg : Reads g y) (hy : y ≠ 0) (hrange : InRange k (x / y))
    (hk : k ≤ 1000) : Reads (UnpackedFloat.div Format.binary64 f g) (rounded (x / y)) := by
  cases hg with
  | zero => exact absurd rfl hy
  | @full n e' hn =>
    cases hf with
    | zero =>
      rw [zero_div, rounded_zero]
      exact .zero
    | @full m e hm =>
      obtain ⟨hlow, hhigh⟩ := log2_quotient hm hn
      have hquotient := Represents.div (m * 2 ^ 53) hn.pos
      have hvalue : ((m * 2 ^ 53 : ℕ) / n : ℚ) = m * 2 ^ e / (n * 2 ^ e') / 2 ^ (e - e' - 53) := by
        have hne : (n : ℚ) ≠ 0 := Nat.cast_ne_zero.mpr hn.pos.ne'
        rw [zpow_sub₀ two_ne_zero, zpow_sub₀ two_ne_zero]
        push_cast
        field_simp
      rw [hvalue] at hquotient
      have hpos : (0 : ℚ) < m * 2 ^ e / (n * 2 ^ e') := by
        have := hm.pos
        have := hn.pos
        positivity
      have hleast := (hrange.log hpos).1
      rw [hquotient.log (ne_zero_of_log2 hlow)] at hleast
      have htarget : min (e - e') (Format.binary64.targetExponent (totalExponent m e - totalExponent n e')) =
          e - e' - 53 := by
        simp only [Format.targetExponent, totalExponent, Format.mantissaBits, Format.minExponent, hm.log2,
          hn.log2]
        omega
      have hshift : (e - e' - (e - e' - 53)).toNat = 53 := by omega
      have hcore : divCore Format.binary64 m e n e' = (m * 2 ^ 53 / n, e - e' - 53,
          accuracyOfFraction (m * 2 ^ 53 % n) n) := by
        rw [divCore, htarget, hshift, Nat.shiftLeft_eq]
      rw [UnpackedFloat.div, hcore]
      exact reads_round hlow hquotient hrange hk

theorem normalize_natCast {sign : Sign} (hm : 52 ≤ m.log2) :
    UnpackedFloat.normalize Format.binary64 m e sign =
      roundWithAccuracy Format.binary64 .positive m e .exact := by
  have hne := ne_zero_of_log2 hm
  have hcompare : compare (m : ℤ) 0 = .gt := by
    rw [Int.compare_eq_gt]
    omega
  have hshift : (e - Format.binary64.targetExponent (totalExponent m e)).toNat = 0 := by
    simp only [Format.targetExponent, totalExponent, Format.mantissaBits, Format.minExponent]
    omega
  rw [UnpackedFloat.normalize, hcompare]
  dsimp only
  rw [UnpackedFloat.round, Int.toNat_natCast]
  dsimp only
  rw [decreaseExponent, hshift, Int.natCast_zero, Int.sub_zero]
  rfl

theorem shiftLeft_mul {c : ℤ} (m : ℕ) (h : c ≤ e) :
    ((m <<< (e - c).toNat : ℕ) : ℚ) * 2 ^ c = m * 2 ^ e := by
  rw [Nat.shiftLeft_eq, Nat.cast_mul, Nat.cast_pow, Nat.cast_ofNat, mul_assoc, ← zpow_natCast,
    ← zpow_add₀ two_ne_zero]
  congr 2
  omega

theorem Reads.add (hf : Reads f x) (hg : Reads g y) (hrange : InRange k (x + y)) (hk : k ≤ 1000) :
    Reads (UnpackedFloat.add Format.binary64 f g) (rounded (x + y)) := by
  cases hf with
  | zero =>
    rw [zero_add]
    cases hg with
    | zero =>
      rw [rounded_zero]
      exact .zero
    | full hn =>
      rw [rounded_of_filled hn.low hn.high]
      exact .full hn
  | @full m e hm =>
    cases hg with
    | zero =>
      rw [add_zero, rounded_of_filled hm.low hm.high]
      exact .full hm
    | @full n e' hn =>
      obtain ⟨c, hc⟩ : ∃ c, c = min e e' := ⟨_, rfl⟩
      have hsum : UnpackedFloat.add Format.binary64 (.finite .positive m e hm.pos)
          (.finite .positive n e' hn.pos) = UnpackedFloat.normalize Format.binary64
            (m <<< (e - c).toNat + n <<< (e' - c).toNat : ℕ) c .positive := by
        rw [hc]
        rfl
      have hlong : 52 ≤ (m <<< (e - c).toNat + n <<< (e' - c).toNat).log2 := by
        refine le_log2_of_le ((hm.low.trans ?_).trans (Nat.le_add_right _ _))
        rw [Nat.shiftLeft_eq]
        exact Nat.le_mul_of_pos_right m (Nat.two_pow_pos _)
      rw [hsum, normalize_natCast hlong]
      refine reads_round hlong (.exact ?_) hrange hk
      rw [div_eq_iff (by positivity), Nat.cast_add, add_mul, shiftLeft_mul m (by omega),
        shiftLeft_mul n (by omega)]

theorem Full.lt_of_exponent {e' : ℤ} (hm : Full m e) (hn : Full n e') (h : e < e') :
    (m * 2 ^ e : ℚ) < n * 2 ^ e' := by
  calc (m * 2 ^ e : ℚ) < 2 ^ 53 * 2 ^ e := by
        gcongr
        exact_mod_cast hm.high
    _ = 2 ^ 52 * 2 ^ (e + 1) := by
        rw [zpow_add_one₀ two_ne_zero]
        ring
    _ ≤ 2 ^ 52 * 2 ^ e' := by
        gcongr
        · exact one_le_two
        · omega
    _ ≤ n * 2 ^ e' := by
        gcongr
        exact_mod_cast hn.low

theorem Reads.lt_iff (hf : Reads f x) (hg : Reads g y) : f.compare g = some .lt ↔ x < y := by
  cases hf with
  | zero =>
    cases hg with
    | zero => simp [UnpackedFloat.compare]
    | full hn =>
      have := hn.pos
      simp [UnpackedFloat.compare]
      positivity
  | @full m e hm =>
    cases hg with
    | zero =>
      simp [UnpackedFloat.compare]
      positivity
    | @full n e' hn =>
      rw [UnpackedFloat.compare, Option.some_inj, Ordering.then_eq_lt, Int.compare_eq_lt, Int.compare_eq_eq,
        Nat.compare_eq_lt]
      obtain hlt | rfl | hgt := lt_trichotomy e e'
      · exact iff_of_true (.inl hlt) (hm.lt_of_exponent hn hlt)
      · have hpow : (0 : ℚ) < 2 ^ e := by positivity
        rw [mul_lt_mul_iff_left₀ hpow, Nat.cast_lt]
        simp
      · refine iff_of_false ?_ (hn.lt_of_exponent hm hgt).not_gt
        omega

theorem Reads.toInt (hf : Reads f x) (a b : ℤ) : (f.toInt a b).toNat = ⌊x⌋₊ := by
  cases hf with
  | zero => simp [UnpackedFloat.toInt]
  | @full m e h =>
    -- The mantissa is first shifted left by the exponent, then right by its opposite. One of them is 0.
    have hexact : Represents ⟨m <<< e.toNat, false, false⟩ (m * 2 ^ (e.toNat : ℤ)) := by
      refine .exact ?_
      rw [Nat.shiftLeft_eq, zpow_natCast]
      push_cast
      rfl
    have hfloor := (hexact.shiftRight (-e).toNat).floor
    have hvalue : (m * 2 ^ (e.toNat : ℤ) / 2 ^ (-e).toNat : ℚ) = m * 2 ^ e := by
      rw [mul_div_assoc, ← zpow_natCast, ← zpow_sub₀ two_ne_zero]
      congr 2
      omega
    have hback : (0 - (e - (e.toNat : ℤ))).toNat = (-e).toNat := by omega
    rw [hvalue] at hfloor
    rw [hfloor, UnpackedFloat.toInt, roundToInt, decreaseExponent, Int.sub_zero]
    dsimp only
    rw [shiftToExponent, hback]
    rfl

/-- A double that stands for a number in a range. -/
structure Stands (k : ℕ) (d : Float) (x : ℚ) : Prop where
  reads : Reads d.toModel.unpack x
  range : InRange k x

namespace Stands

variable {j : ℕ} {c d : Float}

theorem of_pack (hf : Reads f x) (hx : InRange k x) : Stands k (.ofModel (Float.Model.pack f)) x := by
  have hunpack : (Float.ofModel (Float.Model.pack f)).toModel.unpack = f := hf.unpack_pack
  exact ⟨by rwa [hunpack], hx⟩

theorem mul (hc : Stands j c x) (hd : Stands k d y) (h : j + k ≤ 1000) :
    Stands (j + k) (c * d) (rounded (x * y)) :=
  have hrange := hc.range.mul hd.range
  of_pack (hc.reads.mul hd.reads hrange h) hrange.rounded

theorem div (hc : Stands j c x) (hd : Stands k d y) (hy : y ≠ 0) (h : j + k ≤ 1000) :
    Stands (j + k) (c / d) (rounded (x / y)) :=
  have hrange := hc.range.div hd.range
  of_pack (hc.reads.div hd.reads hy hrange h) hrange.rounded

theorem add (hc : Stands k c x) (hd : Stands k d y) (h : k + 1 ≤ 1000) :
    Stands (k + 1) (c + d) (rounded (x + y)) :=
  have hrange := hc.range.add hd.range
  of_pack (hc.reads.add hd.reads hrange h) hrange.rounded

theorem mono (hc : Stands j c x) (h : j ≤ k) : Stands k c x := ⟨hc.reads, hc.range.mono h⟩

theorem lt_iff (hc : Stands j c x) (hd : Stands k d y) : c < d ↔ x < y := by
  rw [Double.lt_iff, hc.reads.lt_iff hd.reads]

theorem not_le_zero (hc : Stands k c x) (hpos : 0 < x) : ¬c ≤ 0 := by
  have hle : c ≤ 0 ↔ c.toModel.unpack.le (0 : Float).toModel.unpack = true := by
    change decide (c.toModel ≤ (0 : Float).toModel) = true ↔ _
    rw [decide_eq_true_iff]
    rfl
  have hzero : (0 : Float).toModel.unpack = .zero .positive := rfl
  have hreads := hc.reads
  rw [hle, hzero]
  generalize c.toModel.unpack = f at hreads
  cases hreads with
  | zero => exact absurd hpos (lt_irrefl 0)
  | full hfull => simp [UnpackedFloat.le, UnpackedFloat.compare]

theorem clamp {lo hi : Float} {a b : ℚ} (hlo : Stands k lo a) (hhi : Stands k hi b) (hc : Stands k c x) :
    Stands k (Scalar.clamp lo hi c) (Scalar.clamp a b x) := by
  rw [Scalar.clamp, Scalar.clamp]
  simp only [hc.lt_iff hlo, hhi.lt_iff hc]
  split_ifs
  · exact hlo
  · exact hhi
  · exact hc

theorem whole (hc : Stands k c x) : Scalar.whole c = min ⌊x⌋₊ (Word.bound - 1) := by
  have hwhole : Scalar.whole c =
      (UInt64.ofNatClamp (c.toModel.unpack.toInt 0 (UInt64.size - 1)).toNat).toNat := rfl
  have hbound : Word.bound = UInt64.size := rfl
  rw [hwhole, hc.reads.toInt, hbound]
  obtain hlt | hge := Nat.lt_or_ge ⌊x⌋₊ UInt64.size
  · rw [UInt64.toNat_ofNatClamp_of_lt hlt, min_eq_left (Nat.le_sub_one_of_lt hlt)]
  · rw [UInt64.toNat_ofNatClamp_of_le hge, min_eq_right (Nat.sub_le_of_le_add (Nat.le_succ_of_le hge))]

theorem isFinite (hc : Stands k c x) : c.isFinite := by
  have hreads := hc.reads
  change c.toModel.unpack.isFinite
  generalize c.toModel.unpack = f at hreads
  cases hreads <;> rfl

end Stands

theorem full_filled (hpos : 0 < n) (hn : n < 2 ^ 53) : Full (n * 2 ^ places n) (-(places n : ℤ)) := by
  have hne := (filled_pos hpos).ne'
  have hlog := log2_filled hpos hn
  have hplaces : places n ≤ 52 := Nat.sub_le _ _
  exact ⟨(Nat.le_log2 hne).mp hlog.ge, (Nat.log2_lt hne).mp (by omega), by omega, by omega⟩

theorem inRange_natCast (hn : n < Word.bound) : InRange 64 n := by
  obtain rfl | hpos := Nat.eq_zero_or_pos n
  · exact .inl Nat.cast_zero
  right
  constructor
  · calc (2 : ℚ) ^ (-(64 : ℕ) : ℤ) ≤ 1 := by norm_num
      _ ≤ n := by exact_mod_cast hpos
  · exact_mod_cast hn.le

theorem reads_ofNat (hn : n < Word.bound) : Reads (Scalar.ofNat n : Float).toModel.unpack (rounded n) := by
  obtain rfl | hpos := Nat.eq_zero_or_pos n
  · rw [Nat.cast_zero, rounded_zero]
    exact .zero
  obtain hsmall | hlarge := Nat.lt_or_ge n (2 ^ 53)
  · have hfull := full_filled hpos hsmall
    have hvalue : (n : ℚ) = (n * 2 ^ places n : ℕ) * 2 ^ (-(places n : ℤ)) := by
      rw [zpow_neg, zpow_natCast, Nat.cast_mul, Nat.cast_pow, Nat.cast_ofNat, mul_inv_cancel_right₀]
      positivity
    rw [unpack_ofNat hpos hsmall, hvalue, rounded_of_filled hfull.low hfull.high]
    exact .full hfull
  · have hround :
        Reads (roundWithAccuracy Format.binary64 .positive (n * 2 ^ 53) (-53) .exact) (rounded n) := by
      refine reads_round (by have := (log2_scaled hlarge hn).1; omega) (.exact ?_)
        (inRange_natCast hn) (by decide)
      rw [zpow_neg, div_inv_eq_mul]
      norm_cast
    rw [ofNat_large hlarge]
    exact (Stands.of_pack hround (inRange_natCast hn).rounded).reads

theorem stands_ofNat (hn : n < Word.bound) : Stands 64 (Scalar.ofNat n) (rounded n) :=
  ⟨reads_ofNat hn, (inRange_natCast hn).rounded⟩

theorem stands_half : Stands 128 Scalar.half (rounded (rounded (1 : ℕ) / rounded (2 : ℕ))) :=
  (stands_ofNat (by decide)).div (stands_ofNat (by decide)) (rounded_pos (by norm_num)).ne' (by decide)

end QuantileMonitor.Double
