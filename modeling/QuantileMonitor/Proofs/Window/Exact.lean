import Mathlib.Algebra.GroupWithZero.Nat
import QuantileMonitor.Proofs.Quantile.Ranked
import QuantileMonitor.Window.Exact

/-! What the exact statistics say of the values recorded. More values before them only raise them. -/

namespace QuantileMonitor.Window

def figures (values : List Nat) : Exact where
  count := values.length
  sum := min (values.sum) Word.top
  nonzero := values.countP (0 < ·)
  least := values.min?
  max := values.max?.getD 0

theorem record_figures (values : List Nat) (v : Nat) :
    (figures values).record v = figures (values ++ [v]) := by
  have hsum : Word.addSat (min (values.sum) Word.top) v =
      min ((values ++ [v]).sum) Word.top := by
    rw [Word.addSat, List.sum_append, List.sum_singleton]
    omega
  have hnonzero : (if 0 < v then values.countP (0 < ·) + 1 else values.countP (0 < ·)) =
      (values ++ [v]).countP (0 < ·) := by
    rw [List.countP_append, List.countP_singleton]
    by_cases hv : 0 < v
    · rw [if_pos hv, if_pos (decide_eq_true hv)]
    · rw [if_neg hv, if_neg (by simpa using hv), Nat.add_zero]
  have hleast : (values ++ [v]).min? = some (values.min?.elim v (Nat.min v)) := by
    have hcomm : (min · v) = Nat.min v := funext fun w => Nat.min_comm w v
    rw [Quantile.min?_concat, hcomm]
  have hmax := Quantile.max?_concat values v
  rw [Exact.record, figures, figures, List.length_append, hleast, hmax, ← hsum, ← hnonzero]
  rfl

theorem foldl_record (values more : List Nat) :
    more.foldl Exact.record (figures values) = figures (values ++ more) := by
  induction more generalizing values with
  | nil => rw [List.foldl_nil, List.append_nil]
  | cons v more ih => rw [List.foldl_cons, record_figures, ih, List.append_assoc, List.singleton_append]

theorem max_figures_le {values more : List Nat} (h : ∀ v ∈ more, v ∈ values) :
    (figures more).max ≤ (figures values).max := by
  cases hmax : more.max? with
  | none =>
    rw [figures, hmax]
    exact Nat.zero_le _
  | some m =>
    rw [figures, hmax]
    exact List.le_max?_getD_of_mem (h m (List.max?_mem hmax))

theorem figures_le {values more : List Nat} (h : more <:+ values) :
    (figures more).count ≤ (figures values).count ∧ (figures more).sum ≤ (figures values).sum ∧
      (figures more).nonzero ≤ (figures values).nonzero ∧
      (figures more).max ≤ (figures values).max := by
  refine ⟨h.length_le, ?_, h.sublist.countP_le, max_figures_le fun v hv => h.subset hv⟩
  obtain ⟨first, rfl⟩ := h
  have hsum : (first ++ more).sum = first.sum + more.sum := List.sum_append
  simp only [figures]
  omega

end QuantileMonitor.Window
