import QuantileMonitor.Proofs.Registry.History
import QuantileMonitor.Proofs.Share
import QuantileMonitor.Proofs.Window.Companions

/-!
# Windows without idle samples

A window that has taken no zero counts all its values as nonzero. If a registry was told of positive values
only, this holds of both windows of every entity, however its calls and interval resets were interleaved.
-/

namespace QuantileMonitor

open Quantile

variable {γ : Type} {strategy : Strategy} {w : Window γ} {values : List Nat}

namespace Window

structure Busy (w : Window γ) : Prop where
  nonzero : w.exact.nonzero = w.exact.count
  utilization : 0 < w.exact.count → w.exact.count < Word.bound → w.exact.utilization = some 1
  least : 0 < w.exact.count → 1 ≤ w.exact.min
  zeros : ∀ s, w.estimator = .sketch s → s.body.zeros = 0

theorem Exact.utilization_eq_one {e : Exact} (h : e.nonzero = e.count) (hpos : 0 < e.count)
    (hcount : e.count < Word.bound) : e.utilization = some 1 := by
  rw [utilization, perCount, if_neg (Nat.ne_of_gt hpos), h, Double.ofNat_div_self hpos hcount]

theorem min_figures_pos (hpos : ∀ v ∈ values, 0 < v) (hne : values ≠ []) : 1 ≤ (figures values).min := by
  obtain ⟨least, hleast⟩ := Option.isSome_iff_exists.mp (List.isSome_min?_iff.mpr hne)
  rw [Exact.min, figures, hleast, Option.getD_some]
  exact hpos least (List.min?_mem hleast)

theorem Shows.busy (h : w.Shows strategy values) (hpos : ∀ v ∈ values, 0 < v) : w.Busy := by
  have hnonzero : w.exact.nonzero = w.exact.count := by
    rw [h.exact]
    exact List.countP_eq_length.mpr (by simpa using hpos)
  refine ⟨hnonzero, Exact.utilization_eq_one hnonzero, fun hcount => ?_, fun s hs => ?_⟩
  · rw [h.exact] at hcount ⊢
    exact min_figures_pos hpos (List.length_pos_iff.mp hcount)
  · have hestimator := h.estimator
    rw [hs] at hestimator
    rw [hestimator.zeros]
    exact List.count_eq_zero.mpr fun hzero => absurd (hpos 0 hzero) (Nat.lt_irrefl 0)

end Window

theorem EntityStats.replay_busy [Draws γ] {draws : γ × γ} {changes : List Change}
    (h : ∀ v ∈ Change.recorded changes, 0 < v) :
    (replay strategy draws changes).interval.Busy ∧ (replay strategy draws changes).lifetime.Busy :=
  ⟨(interval_replay_shows strategy draws changes).busy fun v hv =>
      h v ((Change.latest_suffix changes).subset hv),
    (lifetime_replay_shows strategy draws changes).busy h⟩

theorem Registry.stats_busy [Draws γ] {draws : EntityKey → γ × γ} {now : Instant} {calls : List Call}
    (h : ∀ s ∈ recorded calls, 0 < s.value) {key : EntityKey} {stats : EntityStats γ}
    (hstats : ((empty strategy draws now).run calls).stats? key = some stats) :
    stats.interval.Busy ∧ stats.lifetime.Busy := by
  rw [stats?_run_empty] at hstats
  split at hstats
  next =>
    cases hstats
    apply EntityStats.replay_busy
    rw [recorded_history]
    intro v hv
    obtain ⟨s, hs, rfl⟩ := List.mem_map.mp hv
    exact h s (List.mem_of_mem_filter hs)
  next => cases hstats

end QuantileMonitor
