import QuantileMonitor.Decimal.Shortest
import QuantileMonitor.Proofs.Decimal.Fixed

/-!
# Shortest texts of doubles

The shortest text of a double is a decimal that rounds to it. A multiple of a power of ten is taken only
between the ends of the interval that rounds to the double, and where seventeen digits have none, one that
is cut off after eighteen is closer than the ends.
-/

namespace QuantileMonitor.Decimal

open Float.Model Float.Model.UnpackedFloat

theorem nearest_of_between {x : ℚ} {m : ℕ} (hm : 0 < m) (hlow : m - 1 / 2 ≤ x) (hhigh : x ≤ m + 1 / 2)
    (hodd : m % 2 = 1 → (m : ℚ) - 1 / 2 < x ∧ x < m + 1 / 2) : Double.nearest x = m := by
  -- Below `m` the whole part is one less, and a tie goes up to `m` only if that one is odd.
  obtain hlt | hle := lt_or_ge x m
  · obtain ⟨m, rfl⟩ := Nat.exists_eq_succ_of_ne_zero hm.ne'
    have hfloor : ⌊x⌋₊ = m := by
      rw [Nat.floor_eq_iff (by push_cast at hlow; linarith [(Nat.cast_nonneg m : (0 : ℚ) ≤ m)])]
      push_cast at hlow hlt
      exact ⟨by linarith, hlt⟩
    push_cast at hlow hodd
    rw [Double.nearest, hfloor, if_neg (by linarith)]
    split_ifs with htie
    · rfl
    · have heven : m % 2 = 1 := by
        by_contra h
        have hstrict := (hodd (by omega)).1
        linarith
      omega
  · have hfloor : ⌊x⌋₊ = m := by
      rw [Nat.floor_eq_iff (by linarith [(Nat.cast_nonneg m : (0 : ℚ) ≤ m)])]
      exact ⟨hle, by linarith⟩
    rw [Double.nearest, hfloor, if_neg (not_lt.mpr hhigh : ¬(m + 1 / 2 : ℚ) < x)]
    split_ifs with htie
    · rfl
    · have heven : m % 2 = 0 := by
        by_contra h
        exact htie (hodd (by omega)).2
      omega

theorem lt_pow_digitCount (n : ℕ) : n < 10 ^ digitCount n :=
  (Nat.length_toDigits_le_iff (by decide) (List.length_pos_of_ne_nil Nat.toDigits_ne_nil)).mp le_rfl

theorem exists_pow_le {n : ℕ} (h : 0 < n) : ∃ k, digitCount n = k + 1 ∧ 10 ^ k ≤ n := by
  obtain ⟨k, hk⟩ : ∃ k, digitCount n = k + 1 :=
    Nat.exists_eq_succ_of_ne_zero (List.length_pos_of_ne_nil Nat.toDigits_ne_nil).ne'
  refine ⟨k, hk, ?_⟩
  obtain rfl | hpos := Nat.eq_zero_or_pos k
  · exact h
  · by_contra hlt
    have hfewer := (Nat.length_toDigits_le_iff (b := 10) (by decide) hpos).mpr (not_le.mp hlt)
    rw [← digitCount, hk] at hfewer
    omega

theorem leadingPower_le {p q : ℕ} (hp : 0 < p) (hq : 0 < q) : (10 : ℚ) ^ leadingPower (p, q) ≤ p / q := by
  have hp' : (0 : ℚ) < p := by exact_mod_cast hp
  have hq' : (0 : ℚ) < q := by exact_mod_cast hq
  rw [leadingPower]
  split_ifs with h
  · obtain ⟨k, hk, hpow⟩ := exists_pow_le (Nat.div_pos h hq)
    dsimp only
    rw [hk, Nat.cast_succ, add_sub_cancel_right, zpow_natCast, le_div_iff₀ hq']
    exact_mod_cast (Nat.le_div_iff_mul_le hq).mp hpow
  · have hceil : q ≤ (q + p - 1) / p * p := by
      have hdiv := Nat.div_add_mod (q + p - 1) p
      have hmod := Nat.mod_lt (q + p - 1) hp
      rw [Nat.mul_comm] at hdiv
      omega
    have hle : q ≤ 10 ^ digitCount ((q + p - 1) / p - 1) * p := by
      have hdigits := lt_pow_digitCount ((q + p - 1) / p - 1)
      exact hceil.trans (Nat.mul_le_mul_right p (by omega))
    rw [zpow_neg, zpow_natCast, inv_le_comm₀ (by positivity) (by positivity), inv_div, div_le_iff₀ hp']
    exact_mod_cast hle

namespace Rounding

variable {r : Rounding} {m n : ℕ} {e power : ℤ}

def Inside (r : Rounding) (power : ℤ) (n : ℕ) : Prop :=
  let up := 10 ^ (-power).toNat
  let unit := r.den * 10 ^ power.toNat
  if r.closed then r.low * up ≤ n * unit ∧ n * unit ≤ r.high * up
  else r.low * up < n * unit ∧ n * unit < r.high * up

theorem inside_of_multiple (h : r.multiple power = some n) : r.Inside power n := by
  rw [multiple] at h
  simp only [Nat.pow_eq] at h
  split at h <;> simp only [Option.some.injEq, reduceCtorEq] at h
  next hat hnext =>
    split_ifs at h <;> subst h
    · simpa [Inside] using hat
    · simpa [Inside] using hnext
  next hat hnext => simpa [Inside, ← h] using hat
  next hat hnext => simpa [Inside, ← h] using hnext

theorem exists_quarter (m : ℕ) (e power : ℤ) :
    ∃ up : ℕ, ∃ c : ℚ, 0 < c ∧
      (∀ quarters : ℕ, ((quarters * up * 10 ^ (-power).toNat : ℕ) : ℚ) = quarters / 4 * c) ∧
      (∀ n : ℕ, ((n * ((ofFinite m e).den * 10 ^ power.toNat) : ℕ) : ℚ) = n * 10 ^ power / 2 ^ e * c) ∧
      (ofFinite m e).value = 4 * m * up ∧ (ofFinite m e).high = (4 * m + 2) * up ∧
      ∃ below ≤ 2, (ofFinite m e).low = (4 * m - below) * up := by
  obtain ⟨up, hup⟩ : ∃ up, up = Nat.pow 2 (e - 2).toNat := ⟨_, rfl⟩
  obtain ⟨den, hden⟩ : ∃ den, den = Nat.pow 2 (-(e - 2)).toNat := ⟨_, rfl⟩
  have hquarter : (up : ℚ) = 2 ^ e / 4 * den := by
    have hpos : (den : ℚ) ≠ 0 := by
      rw [hden, Nat.pow_eq]
      positivity
    have h := quotient_div 1 (e - 2)
    rw [quotient, Nat.one_mul, Nat.cast_one, one_mul, ← hup, ← hden, div_eq_iff hpos,
      zpow_sub₀ two_ne_zero] at h
    rw [h]
    norm_num
  refine ⟨up, 2 ^ e * den * 10 ^ (-power).toNat, ?_, ?_, ?_, ?_, ?_, ?_⟩
  · rw [hden, Nat.pow_eq]
    positivity
  · intro quarters
    push_cast
    rw [hquarter]
    ring
  · intro n
    have hdenominator : (ofFinite m e).den = den := hden.symm
    rw [hdenominator, zpow_eq_div (by norm_num : (10 : ℚ) ≠ 0) power]
    push_cast
    field_simp
  · rw [hup]
    rfl
  · rw [hup]
    rfl
  · refine ⟨if m = Double.hidden ∧ e ≠ -1074 then 1 else 2, ?_, ?_⟩
    · split_ifs <;> decide
    · rw [hup]
      rfl

theorem Inside.nearest (h : (ofFinite m e).Inside power n) (hm : 0 < m) :
    Double.nearest (n * 10 ^ power / 2 ^ e) = m := by
  obtain ⟨up, c, hc, hquarters, hmultiple, -, hhigh, below, htwo, hlow⟩ := exists_quarter m e power
  have hlow' : ((4 * m - below : ℕ) : ℚ) / 4 = m - below / 4 := by
    rw [Nat.cast_sub (by omega)]
    push_cast
    ring
  have hhigh' : ((4 * m + 2 : ℕ) : ℚ) / 4 = m + 1 / 2 := by
    push_cast
    ring
  have hbelow : (below : ℚ) / 4 ≤ 1 / 2 := by
    have : (below : ℚ) ≤ 2 := by exact_mod_cast htwo
    linarith
  rw [Inside] at h
  rw [hlow, hhigh, ← Nat.cast_le (α := ℚ), ← Nat.cast_le (α := ℚ), ← Nat.cast_lt (α := ℚ), ← Nat.cast_lt (α := ℚ),
    hquarters, hquarters, hmultiple, mul_le_mul_iff_left₀ hc, mul_le_mul_iff_left₀ hc,
    mul_lt_mul_iff_left₀ hc, mul_lt_mul_iff_left₀ hc, hlow', hhigh'] at h
  split at h
  next hclosed =>
    have heven : m % 2 = 0 := of_decide_eq_true hclosed
    exact nearest_of_between hm (by linarith [h.1]) h.2 (by omega)
  next hopen =>
    exact nearest_of_between hm (by linarith [h.1]) h.2.le fun _ => ⟨by linarith [h.1], h.2⟩

theorem nearest_of_cut (hm : 0 < m) (hfit : m < 2 ^ 53) (hpower : (10 : ℚ) ^ (power + 17) ≤ m * 2 ^ e)
    (hn : n = (ofFinite m e).value * 10 ^ (-power).toNat / ((ofFinite m e).den * 10 ^ power.toNat)) :
    Double.nearest (n * 10 ^ power / 2 ^ e) = m := by
  obtain ⟨up, c, hc, hquarters, hmultiple, hvalue, -⟩ := exists_quarter m e power
  have hunit : 0 < (ofFinite m e).den * 10 ^ power.toNat :=
    Nat.mul_pos (quotient_pos m (e - 2)) (Nat.pow_pos (by decide))
  have hexact : ((4 * m : ℕ) : ℚ) / 4 = m := by
    push_cast
    ring
  have hle : n * 10 ^ power / 2 ^ e ≤ (m : ℚ) := by
    have h := hn ▸ Nat.div_mul_le_self ((ofFinite m e).value * 10 ^ (-power).toNat) _
    rwa [hvalue, ← Nat.cast_le (α := ℚ), hquarters, hmultiple, mul_le_mul_iff_left₀ hc, hexact] at h
  have hlt : (m : ℚ) < (n + 1) * 10 ^ power / 2 ^ e := by
    have h := (Nat.div_lt_iff_lt_mul hunit).mp (hn.symm.trans_lt (Nat.lt_succ_self n))
    rw [hvalue, ← Nat.cast_lt (α := ℚ), hquarters, hmultiple, mul_lt_mul_iff_left₀ hc, hexact] at h
    exact_mod_cast h
  have hstep : (10 : ℚ) ^ power / 2 ^ e < 1 / 2 := by
    rw [zpow_add₀ (by norm_num)] at hpower
    have hfit' : (m : ℚ) < 2 ^ 53 := by exact_mod_cast hfit
    rw [div_lt_iff₀ (by positivity)]
    have hbound : (m : ℚ) * 2 ^ e ≤ 2 ^ 53 * 2 ^ e := by gcongr
    have hpos : (0 : ℚ) < 2 ^ e := by positivity
    norm_num at hpower hbound ⊢
    linarith
  have hsplit : ((n : ℚ) + 1) * 10 ^ power / 2 ^ e = n * 10 ^ power / 2 ^ e + 10 ^ power / 2 ^ e := by ring
  have hlow : (m : ℚ) - 1 / 2 < n * 10 ^ power / 2 ^ e := by linarith
  exact nearest_of_between hm hlow.le (by linarith) fun _ => ⟨hlow, by linarith⟩

theorem search_nearest (hm : 0 < m) (hfit : m < 2 ^ 53) {leading : ℤ} (hleading : (10 : ℚ) ^ leading ≤ m * 2 ^ e)
    {fuel digits : ℕ} (hfuel : digits + fuel = 17) :
    let found := (ofFinite m e).search leading fuel digits
    Double.nearest (found.1 * 10 ^ found.2 / 2 ^ e) = m := by
  induction fuel generalizing digits with
  | zero =>
    -- No multiple with up to seventeen digits lies inside, so the value is cut off after eighteen.
    refine nearest_of_cut hm hfit ?_ rfl
    have hdigits : leading - digits + 17 = leading := by omega
    exact (congrArg _ hdigits).trans_le hleading
  | succ fuel ih =>
    rw [search]
    dsimp only
    cases hmultiple : (ofFinite m e).multiple (leading - digits) with
    | none => exact ih (by omega)
    | some n =>
      have hnearest := (inside_of_multiple hmultiple).nearest hm
      dsimp only
      split_ifs with hcarry
      · rw [Nat.pow_eq] at hcarry
        rw [hcarry] at hnearest
        rw [← hnearest]
        push_cast
        rw [← zpow_natCast, ← zpow_add₀ (by norm_num), one_mul]
        congr 3
        push_cast
        ring
      · exact hnearest

end Rounding

def Plain (n places : ℕ) (text : List Char) : Prop :=
  if places = 0 then text = Nat.toDigits 10 n else Pointed places n text

/-- A decimal that a double is nearest to, in units of its last place. -/
def Denotes (x : Float) (text : List Char) : Prop :=
  match x.toModel.unpack with
  | .notANumber => text = "NaN".toList
  | .infinity sign => text = signText sign ++ "inf".toList
  | .zero sign => text = signText sign ++ ['0']
  | .finite sign m e _ =>
    ∃ n places digits, Plain n places digits ∧ Double.nearest (n / 10 ^ places / 2 ^ e) = m ∧
      text = signText sign ++ digits

theorem exists_plain (n : ℕ) (power : ℤ) :
    ∃ n' places : ℕ, Plain n' places (positional n power) ∧ (n' : ℚ) / 10 ^ places = n * 10 ^ power := by
  rw [positional]
  split_ifs with h
  · have hnone : (-power).toNat = 0 := by omega
    refine ⟨n * 10 ^ power.toNat, 0, ?_, ?_⟩
    · rw [Plain, if_pos rfl, Nat.pow_eq]
    · rw [zpow_eq_div (by norm_num) power, hnone]
      push_cast
      ring
  · have hplaces : (-power).toNat ≠ 0 := by omega
    have hnone : power.toNat = 0 := by omega
    refine ⟨n, (-power).toNat, ?_, ?_⟩
    · rw [Plain, if_neg hplaces]
      exact pointed_pointed hplaces n
    · rw [zpow_eq_div (by norm_num) power, hnone]
      ring

theorem shortest_denotes (x : Float) : Denotes x (shortest x).toList := by
  have hstored : ∀ {sign m e hm}, x.toModel.unpack = .finite sign m e hm → m < 2 ^ 53 := fun h =>
    (Double.stored_of_unpack h).1
  rw [Denotes, shortest, ofFloat_eq]
  cases hunpack : x.toModel.unpack with
  | notANumber => rfl
  | infinity sign => exact toList_signed sign _
  | zero sign => exact toList_signed sign _
  | finite sign m e hm =>
    have hleading : (10 : ℚ) ^ leadingPower (quotient m e) ≤ m * 2 ^ e := by
      rw [← quotient_div]
      exact leadingPower_le (Nat.mul_pos hm (Nat.pow_pos two_pos)) (quotient_pos m e)
    have hnearest := Rounding.search_nearest hm (hstored hunpack) hleading (Nat.zero_add 17)
    obtain ⟨n, places, hplain, hvalue⟩ := exists_plain (shortestDigits m e).1 (shortestDigits m e).2
    obtain ⟨m, rfl⟩ := Nat.exists_eq_succ_of_ne_zero hm.ne'
    refine ⟨n, places, _, hplain, ?_, toList_signed sign _⟩
    rw [hvalue]
    exact hnearest

end QuantileMonitor.Decimal
