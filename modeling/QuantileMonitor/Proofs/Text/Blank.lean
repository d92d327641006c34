import Mathlib.Data.List.TakeWhile
import QuantileMonitor.Text.Blank

/-!
# Blank text

Trimming leaves nothing of a text exactly if all its characters are blank. A text without a separator
is its own only piece, and joined pieces come apart again.
-/

namespace QuantileMonitor.Text

theorem trim_eq_nil_iff (s : List Char) : trim s = [] ↔ ∀ c ∈ s, isBlank c = true := by
  have hright : ∀ s, trimRight s = [] ↔ ∀ c ∈ s, isBlank c = true := by
    intro s
    rw [trimRight, List.reverse_eq_nil_iff, List.dropWhile_eq_nil_iff]
    simp only [List.mem_reverse]
  rw [trim, hright]
  induction s with
  | nil => simp [trimLeft]
  | cons c s ih =>
    by_cases hc : isBlank c = true
    · simpa [trimLeft, hc] using ih
    · simp [trimLeft, hc]

theorem splitOn_of_not_mem {separator : Char} {s : List Char} (h : separator ∉ s) :
    splitOn separator s = [s] := by
  induction s with
  | nil => rfl
  | cons c s ih =>
    obtain ⟨hc, hs⟩ := not_or.mp fun hin => h (List.mem_cons.mpr hin)
    rw [splitOn, if_neg (Ne.symm hc), ih hs]

theorem splitOn_eq (separator : Char) (s : List Char) : splitOn separator s = s.splitOn separator := by
  induction s with
  | nil => rfl
  | cons c s ih =>
    rw [splitOn, ih, List.splitOn_cons_eq_if_modifyHead]
    by_cases hc : c = separator
    · rw [if_pos hc, if_pos (beq_iff_eq.mpr hc)]
    · rw [if_neg hc, if_neg (by simpa using hc)]
      obtain ⟨piece, pieces, hpieces⟩ := List.exists_cons_of_ne_nil (List.splitOn_ne_nil separator s)
      rw [hpieces, List.modifyHead_cons]

theorem splitOn_intercalate {separator : Char} {pieces : List (List Char)}
    (h : ∀ piece ∈ pieces, separator ∉ piece) (hne : pieces ≠ []) :
    splitOn separator ([separator].intercalate pieces) = pieces := by
  rw [splitOn_eq, List.splitOn_intercalate separator h hne]

theorem trim_ne_nil_of_comma {s : List Char} (h : ',' ∈ s) : trim s ≠ [] := by
  intro hnil
  have hblank := (trim_eq_nil_iff s).mp hnil ',' h
  have hcomma : isBlank ',' = false := by decide
  rw [hcomma] at hblank
  cases hblank

end QuantileMonitor.Text
