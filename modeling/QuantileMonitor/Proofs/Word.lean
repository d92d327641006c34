import Mathlib.Algebra.GroupWithZero.Nat
import Mathlib.Algebra.Order.BigOperators.Group.List
import Mathlib.Algebra.Order.Group.Nat
import Mathlib.Tactic.Common
import QuantileMonitor.Word

/-! Words add up one after another exactly if their whole sum is a word. -/

namespace QuantileMonitor.Word

theorem sum?_eq (values : List Nat) : sum? values = if values.sum < bound then some values.sum else none := by
  -- The start is general, so that the sums on the way are among the cases.
  suffices hstart : ∀ start < bound, values.foldlM add? start =
      if start + values.sum < bound then some (start + values.sum) else none by
    simpa [sum?] using hstart 0 (by decide)
  induction values with
  | nil =>
    intro start hstart
    simp [hstart]
  | cons v values ih =>
    intro start hstart
    rw [List.foldlM_cons, List.sum_cons, ← Nat.add_assoc, add?]
    by_cases hsum : start + v < bound
    · simp [hsum, ih (start + v) hsum]
    · have hwhole : ¬start + v + values.sum < bound := by omega
      simp [hsum, hwhole]

theorem sum?_eq_none_iff (values : List Nat) : sum? values = none ↔ bound ≤ values.sum := by
  rw [sum?_eq]
  split <;> simp <;> omega

theorem sum_lt_of_shares {values : List Nat} (h : ∀ v ∈ values, values.length * v < bound) :
    values.sum < bound := by
  cases hmax : values.max? with
  | none =>
    rw [List.max?_eq_none_iff] at hmax
    subst hmax
    decide
  | some most =>
    obtain ⟨hmem, hle⟩ := List.max?_eq_some_iff.mp hmax
    exact Nat.lt_of_le_of_lt (List.sum_le_card_nsmul values most hle) (h most hmem)

end QuantileMonitor.Word
