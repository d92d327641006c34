import QuantileMonitor.Proofs.Quantile.Summary
import QuantileMonitor.Proofs.Window.Exact
import QuantileMonitor.Proofs.Window.Largest

/-!
# Windows replay their histories

A window shows the values recorded since it was created or reset and nothing from before, whatever is
left over inside it. So the lifetime of an entity is the replay of all its values and its interval that
of the latest ones.
-/

namespace QuantileMonitor

open Quantile

variable {γ : Type}

namespace Window

structure Shows (strategy : Strategy) (w : Window γ) (values : List Nat) : Prop where
  exact : w.exact = figures values
  top : w.top.values = largest Top.size values
  estimator : w.estimator.Summarises strategy values

def change [Draws γ] (w : Window γ) : Change → Window γ
  | .value v => w.record v
  | .reset => w.reset

structure Alike (w w' : Window γ) : Prop where
  exact : w.exact = w'.exact
  top : w.top.values = w'.top.values
  count : w.estimator.count = w'.estimator.count

variable {strategy : Strategy} {w w' : Window γ} {values : List Nat}

theorem empty_shows (strategy : Strategy) (draws : γ) : (empty strategy draws).Shows strategy [] :=
  ⟨rfl, Top.values_empty, Estimator.build_summarises strategy draws⟩

namespace Shows

theorem reset (h : w.Shows strategy values) : w.reset.Shows strategy [] :=
  ⟨rfl, Top.values_clear w.top, h.estimator.reset⟩

theorem record [Draws γ] (h : w.Shows strategy values) (v : Nat) :
    (w.record v).Shows strategy (values ++ [v]) where
  exact := by
    rw [Window.record, h.exact]
    exact record_figures values v
  top := Top.values_record h.top v
  estimator := h.estimator.insert v

theorem foldl_record [Draws γ] (h : w.Shows strategy values) (more : List Nat) :
    (more.foldl Window.record w).Shows strategy (values ++ more) := by
  induction more generalizing w values with
  | nil => rwa [List.append_nil]
  | cons v more ih =>
    rw [List.append_cons]
    exact ih (h.record v)

theorem change [Draws γ] (h : w.Shows strategy values) (c : Change) :
    (w.change c).Shows strategy (c.keep values) := by
  cases c with
  | value v => exact h.record v
  | reset => exact h.reset

theorem foldl_change [Draws γ] (h : w.Shows strategy values) (changes : List Change) :
    (changes.foldl Window.change w).Shows strategy (changes.foldl Change.keep values) := by
  induction changes generalizing w values with
  | nil => exact h
  | cons c changes ih => exact ih (h.change c)

theorem alike (h : w.Shows strategy values) (h' : w'.Shows strategy values) : w.Alike w' where
  exact := h.exact.trans h'.exact.symm
  top := h.top.trans h'.top.symm
  count := h.estimator.count.trans h'.estimator.count.symm

theorem quantile_isSome_iff (h : w.Shows strategy values) (hcheck : strategy.check = .ok ())
    (q : Float) : (w.quantile q).isSome ↔ 0 < w.exact.count := by
  rw [h.exact]
  exact (h.estimator.quantile_isSome_iff hcheck q).trans List.length_pos_iff.symm

end Shows

theorem snapshot_alike (w : Window γ) : w.snapshot.Alike w :=
  ⟨rfl, rfl, w.estimator.count_snapshot⟩

theorem quantile_snapshot (w : Window γ) (q : Float) : w.snapshot.quantile q = w.quantile q :=
  w.estimator.quantile_snapshot q

end Window

namespace EntityStats

variable [Draws γ]

theorem replay_concat (strategy : Strategy) (draws : γ × γ) (changes : List Change) (c : Change) :
    replay strategy draws (changes ++ [c]) = (replay strategy draws changes).change c := by
  rw [replay, List.foldl_append]
  rfl

theorem lifetime_replay (strategy : Strategy) (draws : γ × γ) (changes : List Change) :
    (replay strategy draws changes).lifetime =
      (Change.recorded changes).foldl Window.record (.empty strategy draws.2) := by
  induction changes using List.reverseRecOn with
  | nil => rfl
  | append_singleton changes c ih =>
    rw [replay_concat, Change.recorded_append, List.foldl_append, ← ih]
    cases c with
    | value v => rfl
    | reset => rfl

theorem lifetime_replay_shows (strategy : Strategy) (draws : γ × γ) (changes : List Change) :
    (replay strategy draws changes).lifetime.Shows strategy (Change.recorded changes) := by
  rw [lifetime_replay]
  exact (Window.empty_shows strategy draws.2).foldl_record _

theorem interval_replay (strategy : Strategy) (draws : γ × γ) (changes : List Change) :
    (replay strategy draws changes).interval =
      changes.foldl Window.change (.empty strategy draws.1) := by
  induction changes using List.reverseRecOn with
  | nil => rfl
  | append_singleton changes c ih =>
    rw [replay_concat, List.foldl_append, ← ih]
    cases c with
    | value v => rfl
    | reset => rfl

theorem interval_replay_shows (strategy : Strategy) (draws : γ × γ) (changes : List Change) :
    (replay strategy draws changes).interval.Shows strategy (Change.latest changes) := by
  rw [interval_replay]
  exact (Window.empty_shows strategy draws.1).foldl_change changes

/-- The lifetime is a fresh window that took all values. The interval shows what a fresh window shows
that took those since the last reset, whichever draws that one has. A reservoir's quantiles are looked up
among its samples in order. -/
theorem replay_windows (strategy : Strategy) (hcheck : strategy.check = .ok ()) (draws : γ × γ)
    (changes : List Change) :
    let s := replay strategy draws changes
    let recorded := Change.recorded changes
    let latest := Change.latest changes
    s.lifetime = recorded.foldl Window.record (.empty strategy draws.2) ∧
    (∀ d : γ, let fresh := latest.foldl Window.record (.empty strategy d)
      s.interval.Alike fresh ∧
        (strategy.KeepsAll latest.length → ∀ q, s.interval.quantile q = fresh.quantile q)) ∧
    s.totalCount = recorded.length ∧ s.trueMax = recorded.max?.getD 0 ∧
    (∀ more, s.trueMax ≤ (replay strategy draws (changes ++ more)).trueMax) ∧
    (s.interval.exact.count ≤ s.lifetime.exact.count ∧
      s.interval.exact.sum ≤ s.lifetime.exact.sum ∧
      s.interval.exact.nonzero ≤ s.lifetime.exact.nonzero ∧
      s.interval.exact.max ≤ s.lifetime.exact.max) ∧
    (∀ q, ((s.interval.quantile q).isSome ↔ 0 < s.interval.exact.count) ∧
      ((s.lifetime.quantile q).isSome ↔ 0 < s.lifetime.exact.count)) ∧
    s.snapshot.interval.Alike s.interval ∧ s.snapshot.lifetime.Alike s.lifetime ∧
    (∀ q, s.snapshot.interval.quantile q = s.interval.quantile q ∧
      s.snapshot.lifetime.quantile q = s.lifetime.quantile q) ∧
    (s.snapshot.trueMax = s.trueMax ∧ s.snapshot.totalCount = s.totalCount ∧
      s.snapshot.intervalPeak = s.intervalPeak) ∧
    ∀ r : Quantile.Reservoir γ, s.interval.estimator = .reservoir r ∨ s.lifetime.estimator = .reservoir r →
      r.samples.size ≤ 2 ^ 53 → ∀ q, r.quantile q =
        Quantile.Reservoir.lookUp (if r.sorted then r.samples else Quantile.Reservoir.ascending r.samples) q := by
  intro s recorded latest
  have hlifetime := lifetime_replay_shows strategy draws changes
  have hinterval := interval_replay_shows strategy draws changes
  have hmax : ∀ all, (replay strategy draws all).trueMax =
      (Window.figures (Change.recorded all)).max :=
    fun all => congrArg (·.max) (lifetime_replay_shows strategy draws all).exact
  refine ⟨lifetime_replay strategy draws changes, fun d => ?_, ?_, hmax changes, fun more => ?_, ?_,
    fun q => ⟨hinterval.quantile_isSome_iff hcheck q, hlifetime.quantile_isSome_iff hcheck q⟩,
    s.interval.snapshot_alike, s.lifetime.snapshot_alike,
    fun q => ⟨s.interval.quantile_snapshot q, s.lifetime.quantile_snapshot q⟩, ⟨rfl, rfl, rfl⟩,
    fun r _ hsize => r.quantile_eq_lookUp hsize⟩
  · have hfresh := (Window.empty_shows strategy d).foldl_record latest
    exact ⟨hinterval.alike hfresh,
      fun hall q => hinterval.estimator.quantile_eq hfresh.estimator hall q⟩
  · exact congrArg (·.count) hlifetime.exact
  · rw [hmax, hmax]
    refine Window.max_figures_le fun v hv => ?_
    rw [Change.recorded_append]
    exact List.mem_append_left _ hv
  · rw [hinterval.exact, hlifetime.exact]
    exact Window.figures_le (Change.latest_suffix changes)

theorem replay_windows_reservoir :
    let s := replay (.reservoir 2) (([], []) : List Nat × List Nat)
      [.value 90, .value 3, .reset, .value 7]
    (Strategy.reservoir 2).check = .ok () ∧ s.totalCount = 3 ∧ s.trueMax = 90 := by
  obtain ⟨-, -, hcount, hmax, -⟩ := replay_windows (.reservoir 2) rfl
    (([], []) : List Nat × List Nat) [.value 90, .value 3, .reset, .value 7]
  exact ⟨rfl, hcount, hmax⟩

end EntityStats

end QuantileMonitor
