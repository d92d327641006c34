import QuantileMonitor.Frame.Cell
import QuantileMonitor.Proofs.Decimal.Shortest

/-!
# Texts of single values

What a latency, a count and the heading of a percentile look like, said of their texts. Whole numbers are
written in digits, so a latency in milliseconds is the one nearest to it; everything larger is the text of
a double to one place. No text of a value is a dash.
-/

namespace QuantileMonitor.Frame

open Decimal Scalar

/-- Whole microseconds, then whole milliseconds, then seconds to one place. -/
def LatencyText (us : ℕ) (text : List Char) : Prop :=
  if us < 1000 then text = Nat.toDigits 10 us ++ "µs".toList
  else if us < 1000000 then
    ∃ ms, 1000 * ms ≤ us + 500 ∧ us + 500 < 1000 * (ms + 1) ∧ text = Nat.toDigits 10 ms ++ "ms".toList
  else ∃ number, Fixed 1 (ofNat us / 1000000) number ∧ text = number ++ ['s']

def CountText (n : ℕ) (text : List Char) : Prop :=
  if n < 1000 then text = Nat.toDigits 10 n
  else if n < 1000000 then ∃ number, Fixed 1 (ofNat n / 1000) number ∧ text = number ++ ['K']
  else if n < 1000000000 then ∃ number, Fixed 1 (ofNat n / 1000000) number ∧ text = number ++ ['M']
  else ∃ number, Fixed 1 (ofNat n / 1000000000) number ∧ text = number ++ ['B']

def ShareText (x : Float) (text : List Char) : Prop :=
  ∃ number, Fixed 1 (x * 100) number ∧ text = number ++ ['%']

def PercentileText (p : Float) (text : List Char) : Prop :=
  if p.isFinite && p.floor == p then text = 'P' :: Nat.toDigits 10 (whole p)
  else ∃ number, Denotes p number ∧ text = 'P' :: number

theorem toList_toString (n : ℕ) : (toString n).toList = Nat.toDigits 10 n := by
  rw [Nat.toString_eq_ofList_toDigits, String.toList_ofList]

theorem latency_text (us : ℕ) : LatencyText us (latency us).toList := by
  rw [LatencyText, latency]
  split_ifs
  · exact (String.toList_append ..).trans (congrArg (· ++ _) (toList_toString us))
  · refine ⟨(us + 500) / 1000, by omega, by omega, ?_⟩
    exact (String.toList_append ..).trans (congrArg (· ++ _) (toList_toString _))
  · exact ⟨_, fixed_text one_ne_zero _, String.toList_append ..⟩

theorem count_text (n : ℕ) : CountText n (count n).toList := by
  rw [CountText, count]
  split_ifs
  any_goals omega
  · exact toList_toString n
  · exact ⟨_, fixed_text one_ne_zero _, String.toList_append ..⟩
  · exact ⟨_, fixed_text one_ne_zero _, String.toList_append ..⟩
  · exact ⟨_, fixed_text one_ne_zero _, String.toList_append ..⟩

theorem percentile_text (p : Float) : PercentileText p (percentile p).toList := by
  rw [PercentileText, percentile]
  split_ifs
  · exact (String.toList_append ..).trans (congrArg (_ ++ ·) (toList_toString _))
  · exact ⟨_, shortest_denotes p, String.toList_append ..⟩

theorem ne_dash_of_mem {text : List Char} {c : Char} (h : c ∈ text) (hc : c ≠ '-') : text ≠ ['-'] := by
  rintro rfl
  exact hc (List.mem_singleton.mp h)

theorem toDigits_ne_dash (n : ℕ) : Nat.toDigits 10 n ≠ ['-'] := by
  intro hdash
  have hdigit := Text.digits_toDigits n '-' (hdash ▸ List.mem_singleton_self _)
  cases hdigit

theorem fixedText_ne_dash {places : ℕ} {x : Float} {text : List Char} (h : Fixed places x text) :
    text ≠ ['-'] := by
  have hpoint : ∀ {n : ℕ} {before digits : List Char}, Pointed places n digits → before ++ digits ≠ ['-'] := by
    rintro n before digits ⟨part, rfl, -⟩
    exact ne_dash_of_mem (c := '.') (by simp) (by decide)
  rw [Fixed] at h
  split at h
  · rw [h]
    decide
  · rw [h]
    exact ne_dash_of_mem (c := 'f') (List.mem_append_right _ (by decide)) (by decide)
  · obtain ⟨digits, hdigits, rfl⟩ := h
    exact hpoint hdigits
  · obtain ⟨digits, hdigits, rfl⟩ := h
    exact hpoint hdigits

theorem LatencyText.ne_dash {us : ℕ} {text : List Char} (h : LatencyText us text) : text ≠ ['-'] := by
  refine ne_dash_of_mem (c := 's') ?_ (by decide)
  rw [LatencyText] at h
  split_ifs at h
  · rw [h]
    exact List.mem_append_right _ (by decide)
  · obtain ⟨ms, -, -, rfl⟩ := h
    exact List.mem_append_right _ (by decide)
  · obtain ⟨number, -, rfl⟩ := h
    exact List.mem_append_right _ (by decide)

theorem ShareText.ne_dash {x : Float} {text : List Char} (h : ShareText x text) : text ≠ ['-'] := by
  obtain ⟨number, -, rfl⟩ := h
  exact ne_dash_of_mem (List.mem_append_right _ (List.mem_singleton_self '%')) (by decide)

end QuantileMonitor.Frame
