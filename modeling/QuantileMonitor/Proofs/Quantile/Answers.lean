import Mathlib.Tactic.FieldSimp
import Mathlib.Tactic.Linarith
import QuantileMonitor.Proofs.Quantile.Contents
import QuantileMonitor.Proofs.Scalar

/-!
# What a sketch answers

Over exact numbers the half rank that is added before the division is cut off after it, so an inner
rank is looked up in the bins as it is. A quantile is then a ranked value: exactly, among the zeros and
at the first and the last positive value, and as the number of its bucket elsewhere.
-/

namespace QuantileMonitor.Quantile

open Scalar

def index (q : Rat) (count : Nat) : Nat := ⌊q * (count - 1 : Nat)⌋₊

theorem index_lt {q : Rat} (hq : q ≤ 1) {count : Nat} (hcount : 0 < count) :
    index q count < count := by
  have hle : q * (count - 1 : Nat) ≤ (count - 1 : Nat) :=
    mul_le_of_le_one_left (Nat.cast_nonneg _) hq
  have hfloor : index q count ≤ count - 1 := Nat.floor_le_of_le hle
  omega

namespace Sketch

variable {g : Grid Rat} {s : Sketch} {values : List Nat}

theorem share_mem {rank positive : Nat} (hrank : rank + 1 < positive) :
    0 < ((rank : Rat) + 1 / 2) / (positive - 1 : Nat) ∧
      ((rank : Rat) + 1 / 2) / (positive - 1 : Nat) < 1 := by
  have hlast : (rank : Rat) + 1 ≤ (positive - 1 : Nat) := by exact_mod_cast (by omega)
  have hrank0 : (0 : Rat) ≤ rank := Nat.cast_nonneg rank
  constructor
  · apply div_pos <;> linarith
  · rw [div_lt_one (by linarith)]
    linarith

theorem floor_share_mul {rank positive : Nat} (hrank : rank + 1 < positive) :
    ⌊((rank : Rat) + 1 / 2) / (positive - 1 : Nat) * (positive - 1 : Nat)⌋₊ = rank := by
  have hlast : ((positive - 1 : Nat) : Rat) ≠ 0 := by
    have : positive - 1 ≠ 0 := by omega
    exact_mod_cast this
  have hrank0 : (0 : Rat) ≤ rank := Nat.cast_nonneg rank
  rw [div_mul_cancel₀ _ hlast, Nat.floor_eq_iff (by linarith)]
  constructor <;> linarith

theorem inner_eq (g : Grid Rat) (s : Sketch) {rank positive : Nat} (hrank : rank + 1 < positive) :
    s.inner g rank positive = (s.bins.keyAtRank rank).map g.value := by
  have hshare := (share_mem hrank).2
  have hfloor := floor_share_mul hrank
  simp only [inner, ofNat_rat, half_rat, whole_rat, Nat.cast_one, hfloor, if_pos hshare]

theorem quantile_exact (g : Grid Rat) (s : Sketch) {q : Rat} (hq0 : 0 ≤ q) (hq1 : q ≤ 1)
    (hcount : s.count ≠ 0) :
    s.quantile g q =
      if index q s.count < s.zeros then some 0
      else if index q s.count - s.zeros = 0 then some ((s.least.getD Word.top : Nat) : Rat)
      else if s.count - s.zeros ≤ index q s.count - s.zeros + 1 then some (s.greatest : Rat)
      else (s.bins.keyAtRank (index q s.count - s.zeros)).map g.value := by
  have hrank : whole (unit q * ofNat (s.count - 1)) = index q s.count := by
    rw [unit_of_mem hq0 hq1, ofNat_rat, whole_rat, index]
  rw [quantile, if_neg hcount]
  dsimp only
  rw [hrank, ofNat_rat, ofNat_rat, ofNat_rat, Nat.cast_zero]
  split_ifs with hzero hfirst hlast
  · rfl
  · rfl
  · rfl
  · exact inner_eq g s (by omega)

theorem Holds.quantile_eq (h : Holds g.key s values)
    (hmono : ∀ v ∈ positives values, ∀ w ∈ positives values, v ≤ w → g.key v ≤ g.key w)
    (hvalues : values ≠ []) {q : Rat} (hq0 : 0 ≤ q) (hq1 : q ≤ 1) :
    s.quantile g q = (ranked values)[index q values.length]?.map fun v : Nat =>
      if index q values.length ≤ values.count 0 ∨ index q values.length + 1 = values.length then
        (v : Rat)
      else g.value (g.key v) := by
  have hlength : 0 < values.length := List.length_pos_of_ne_nil hvalues
  have hindex := index_lt hq1 hlength
  have hcount : s.count ≠ 0 := by
    rw [h.count]
    omega
  rw [quantile_exact g s hq0 hq1 hcount, h.count, h.zeros]
  generalize index q values.length = i at hindex ⊢
  by_cases hzero : i < values.count 0
  · rw [if_pos hzero, ranked_getElem?_zero hzero, Option.map_some, if_pos (.inl hzero.le),
      Nat.cast_zero]
  rw [if_neg hzero]
  by_cases hfirst : i - values.count 0 = 0
  · obtain ⟨m, hleast, hm⟩ := exists_least (by omega : values.count 0 < values.length)
    have hi : i = values.count 0 := by omega
    rw [if_pos hfirst, hi, hm, h.least, hleast]
    simp only [Option.getD_some, Option.map_some, if_pos (Or.inl (Nat.le_refl (values.count 0)))]
  rw [if_neg hfirst]
  by_cases hlast : values.length - values.count 0 ≤ i - values.count 0 + 1
  · have hend : i = values.length - 1 := by omega
    obtain ⟨m, hm⟩ := exists_greatest hvalues
    rw [if_pos hlast, hend, ranked_getElem?_last, h.greatest, hm]
    simp only [Option.getD_some, Option.map_some,
      if_pos (Or.inr (by omega : values.length - 1 + 1 = values.length))]
  · have hinner : i - values.count 0 < s.count - s.zeros := by
      rw [h.count, h.zeros]
      omega
    rw [if_neg hlast, h.keyAtRank hmono hinner, ← ranked_getElem?_positive (by omega),
      Option.map_map]
    simp only [if_neg (by omega : ¬(i ≤ values.count 0 ∨ i + 1 = values.length))]
    rfl

end Sketch

def minus? (a b : Nat) : Option Nat := if b ≤ a then some (a - b) else none

def over? (x y : Rat) : Option Rat := if y = 0 then none else some (x / y)

theorem minus?_of_le {a b : Nat} (h : b ≤ a) : minus? a b = some (a - b) := if_pos h

theorem over?_of_ne_zero (x : Rat) {y : Rat} (h : y ≠ 0) : over? x y = some (x / y) := if_neg h

def Bins.quantile? (g : Grid Rat) (b : Bins) (share : Rat) : Option (Option Rat) :=
  if 0 < share ∧ share < 1 then
    (minus? b.spread.length 1).map fun last =>
      (b.keyAtRank (whole (share * ofNat last))).map g.value
  else none

namespace Sketch

/-- The quantile with every step checked; there is no answer at all when a step fails. -/
def quantile? (g : Grid Rat) (s : Sketch) (q : Rat) : Option (Option Rat) :=
  if s.count = 0 then some none
  else do
    let rank := whole (unit q * ofNat (← minus? s.count 1))
    if rank < s.zeros then return some (ofNat 0)
    let positive ← minus? s.count s.zeros
    let rank ← minus? rank s.zeros
    if rank = 0 then return some (ofNat (s.least.getD Word.top))
    if positive ≤ rank + 1 then return some (ofNat s.greatest)
    let share ← over? (ofNat rank + half) (ofNat (← minus? positive 1))
    s.bins.quantile? g share

theorem quantile?_inner (g : Grid Rat) (b : Bins) {rank : Nat} (hrank : rank + 1 < b.spread.length) :
    b.quantile? g (((rank : Rat) + 1 / 2) / (b.spread.length - 1 : Nat)) =
      some ((b.keyAtRank rank).map g.value) := by
  rw [Bins.quantile?, if_pos (share_mem hrank), minus?_of_le (by omega), Option.map_some,
    ofNat_rat, whole_rat, floor_share_mul hrank]

theorem Holds.quantile?_eq (h : Holds g.key s values) {q : Rat} (hq0 : 0 ≤ q) (hq1 : q ≤ 1) :
    s.quantile? g q = some (s.quantile g q) := by
  by_cases hcount : s.count = 0
  · rw [quantile?, quantile, if_pos hcount, if_pos hcount]
  have hzeros : s.zeros ≤ s.count := by
    have hsplit := count_zero_add_length_positives values
    rw [h.count, h.zeros]
    omega
  have hspread := h.length_spread
  have hindex := index_lt hq1 (Nat.pos_of_ne_zero hcount)
  have hrank : whole (unit q * ofNat (s.count - 1)) = index q s.count := by
    rw [unit_of_mem hq0 hq1, ofNat_rat, whole_rat, index]
  rw [quantile?, if_neg hcount, minus?_of_le (by omega), minus?_of_le hzeros,
    quantile_exact g s hq0 hq1 hcount]
  simp only [Option.bind_eq_bind, Option.bind_some, hrank]
  by_cases hzero : index q s.count < s.zeros
  · rw [if_pos hzero, if_pos hzero, ofNat_rat, Nat.cast_zero]
    rfl
  rw [if_neg hzero, if_neg hzero, minus?_of_le (by omega), Option.bind_some]
  by_cases hfirst : index q s.count - s.zeros = 0
  · rw [if_pos hfirst, if_pos hfirst, ofNat_rat]
    rfl
  rw [if_neg hfirst, if_neg hfirst]
  by_cases hlast : s.count - s.zeros ≤ index q s.count - s.zeros + 1
  · rw [if_pos hlast, if_pos hlast, ofNat_rat]
    rfl
  have hdivisor : ((s.count - s.zeros - 1 : Nat) : Rat) ≠ 0 := by
    have hne : s.count - s.zeros - 1 ≠ 0 := by omega
    exact_mod_cast hne
  rw [if_neg hlast, if_neg hlast, minus?_of_le (by omega), Option.bind_some, ofNat_rat, ofNat_rat,
    half_rat, over?_of_ne_zero _ hdivisor, Option.bind_some, ← hspread]
  exact quantile?_inner g s.bins (by omega)

end Sketch

end QuantileMonitor.Quantile
