import Mathlib.Tactic.Linarith
import Mathlib.Tactic.Ring
import QuantileMonitor.Proofs.Scalar

/-!
# Values between ranks

Between two ranks a list of values is read along the straight line from the one value to the other.
Reading a quantile at its position follows that line and never asks for a rank past the last one.
-/

namespace QuantileMonitor.Quantile

open Scalar

/-- The broken line through the values, each at its rank. -/
def line : List Nat → Rat → Rat
  | [], _ => 0
  | [x], _ => x
  | x :: y :: rest, p => if p ≤ 1 then x + p * (y - x) else line (y :: rest) (p - 1)

theorem line_between {values : List Nat} {i x y : Nat} (hx : values[i]? = some x)
    (hy : values[i + 1]? = some y) {p : Rat} (hlow : (i : Rat) ≤ p) (hhigh : p ≤ i + 1) :
    line values p = x + (p - i) * (y - x) := by
  induction i generalizing values p with
  | zero =>
    obtain ⟨rest, rfl⟩ : ∃ rest, values = x :: y :: rest := by
      match values, hx, hy with
      | a :: b :: rest, hx, hy =>
        exact ⟨rest, by rw [Option.some.inj hx, Option.some.inj hy]⟩
    rw [Nat.cast_zero] at hhigh ⊢
    rw [line, if_pos (by linarith), sub_zero]
  | succ i ih =>
    match values, hx, hy with
    | a :: b :: rest, hx, hy =>
      rw [Nat.cast_succ] at hlow hhigh ⊢
      have hrest : line (b :: rest) (p - 1) = x + (p - 1 - i) * (y - x) :=
        ih hx hy (by linarith) (by linarith)
      rw [line]
      split_ifs with hone
      · -- Only the joint of the first two pieces is on both.
        have hi : (i : Rat) = 0 := le_antisymm (by linarith) (Nat.cast_nonneg i)
        have hp : p = 1 := by linarith
        obtain rfl : i = 0 := by exact_mod_cast hi
        obtain rfl : b = x := Option.some.inj hx
        rw [hp, hi]
        ring
      · rw [hrest]
        ring

theorem line_rank {values : List Nat} {i x : Nat} (hx : values[i]? = some x) :
    line values i = x := by
  induction i generalizing values with
  | zero =>
    match values, hx with
    | [a], hx => rw [Option.some.inj hx, line]
    | a :: b :: rest, hx =>
      rw [line, if_pos (by simp), Option.some.inj hx]
      simp
  | succ i ih =>
    match values, hx with
    | a :: b :: rest, hx =>
      have hrest : line (b :: rest) i = x := ih hx
      rw [line]
      split_ifs with hone
      · have hi : i = 0 := by
          rw [Nat.cast_succ] at hone
          exact_mod_cast le_antisymm (by linarith) (Nat.cast_nonneg (α := Rat) i)
        subst hi
        obtain rfl : b = x := Option.some.inj hx
        simp
      · rw [← hrest]
        congr 1
        push_cast
        ring

theorem floor_lt_ranks {p : Rat} {n : Nat} (hn : 0 < n) (hp1 : p ≤ (n - 1 : Nat)) :
    ⌊p⌋₊ < n ∧ (0 < p - ⌊p⌋₊ → ⌊p⌋₊ + 1 < n) := by
  have hfloor : ⌊p⌋₊ ≤ n - 1 := Nat.floor_le_of_le hp1
  refine ⟨by omega, fun hbetween => ?_⟩
  have hlt : (⌊p⌋₊ : Rat) < (n - 1 : Nat) := by linarith
  have hlast : ⌊p⌋₊ < n - 1 := by exact_mod_cast hlt
  omega

theorem readAt_position {values : List Nat} {value : Nat → Nat}
    (hvalue : ∀ i x, values[i]? = some x → value i = x) (hne : values ≠ []) {q : Rat}
    (hq0 : 0 ≤ q) (hq1 : q ≤ 1) :
    readAt value (position q values.length) = line values (q * (values.length - 1 : Nat)) := by
  have hlength := List.length_pos_of_ne_nil hne
  have hp0 : 0 ≤ q * (values.length - 1 : Nat) := mul_nonneg hq0 (Nat.cast_nonneg _)
  have hp1 : q * (values.length - 1 : Nat) ≤ (values.length - 1 : Nat) :=
    mul_le_of_le_one_left (Nat.cast_nonneg _) hq1
  simp only [readAt, position, unit_of_mem hq0 hq1, ofNat_rat, whole_rat, Nat.cast_zero]
  generalize q * (values.length - 1 : Nat) = p at hp0 hp1 ⊢
  have hfloor := Nat.floor_le hp0
  obtain ⟨hrank, hnext⟩ := floor_lt_ranks hlength hp1
  have hx : values[⌊p⌋₊]? = some values[⌊p⌋₊] := List.getElem?_eq_getElem hrank
  rw [hvalue _ _ hx]
  split_ifs with hbetween
  · have hy := List.getElem?_eq_getElem (hnext hbetween)
    rw [hvalue _ _ hy, interpolate, line_between hx hy hfloor (Nat.lt_floor_add_one p).le]
    ring
  · have hp : p = ⌊p⌋₊ := le_antisymm (by linarith) hfloor
    rw [← line_rank hx, ← hp]

end QuantileMonitor.Quantile
