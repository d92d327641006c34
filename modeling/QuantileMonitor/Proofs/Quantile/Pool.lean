import Mathlib.Logic.Function.Basic
import QuantileMonitor.Proofs.Quantile.Tally

/-!
# Pools of histograms

Histograms with clamps of their own take values, take over the values of one another, are emptied and
copied. Beside each stands the list of values that it was given under its clamp, and after every run
the histogram answers as that list does.
-/

namespace QuantileMonitor.Quantile

theorem update_related {ι α β : Type} [DecidableEq ι] {R : α → β → Prop} {f : ι → α} {g : ι → β}
    (h : ∀ i, R (f i) (g i)) {target : ι} {a : α} {b : β} (hab : R a b) (i : ι) :
    R (Function.update f target a i) (Function.update g target b i) := by
  by_cases hi : i = target
  · rw [hi, Function.update_self, Function.update_self]
    exact hab
  · rw [Function.update_of_ne hi, Function.update_of_ne hi]
    exact h i

namespace Histogram

inductive Step (ι : Type)
  | insert (target : ι) (v : Nat)
  | merge (target source : ι)
  | reset (target : ι)
  | snapshot (source target : ι)

structure Stream where
  clamp : Nat
  values : List Nat

namespace Step

variable {ι : Type}

def target : Step ι → ι
  | insert target _ => target
  | merge target _ => target
  | reset target => target
  | snapshot _ target => target

def histogram (pool : ι → Histogram) : Step ι → Histogram
  | insert target v => (pool target).insert v
  | merge target source => (pool target).merge (pool source)
  | reset target => (pool target).reset
  | snapshot source _ => pool source

def stream (streams : ι → Stream) : Step ι → Stream
  | insert target v =>
    let s := streams target
    { s with values := s.values ++ [min v s.clamp] }
  | merge target source =>
    let s := streams target
    { s with values := s.values ++ (streams source).values.map (min · s.clamp) }
  | reset target => { streams target with values := [] }
  | snapshot source _ => streams source

end Step

def fill (clamp : Nat) (values : List Nat) : Histogram := values.foldl insert (empty clamp)

structure StandsFor (h : Histogram) (s : Stream) : Prop where
  clamp : h.maxValue = s.clamp
  tallies : Tallies h s.values

theorem foldl_insert_tallies {h : Histogram} {values : List Nat} (ht : Tallies h values)
    (more : List Nat) :
    (more.foldl insert h).maxValue = h.maxValue ∧
      Tallies (more.foldl insert h) (values ++ more.map (min · h.maxValue)) := by
  induction more generalizing h values with
  | nil => exact ⟨rfl, by simpa using ht⟩
  | cons v more ih =>
    obtain ⟨hmax, htail⟩ := ih (ht.insert v)
    refine ⟨hmax, ?_⟩
    rw [List.map_cons, List.append_cons]
    exact htail

theorem fill_standsFor (clamp : Nat) (values : List Nat) :
    StandsFor (fill clamp values) ⟨clamp, values.map (min · clamp)⟩ := by
  obtain ⟨hmax, htally⟩ := foldl_insert_tallies (Tallies.of_empty clamp) values
  exact ⟨hmax, htally⟩

section Run

variable {ι : Type} {pool : ι → Histogram} {streams : ι → Stream}

theorem histogram_standsFor (h : ∀ i, StandsFor (pool i) (streams i)) (s : Step ι) :
    StandsFor (s.histogram pool) (s.stream streams) := by
  cases s with
  | insert target v =>
    have ht := (h target).tallies.insert v
    rw [(h target).clamp] at ht
    exact ⟨(h target).clamp, ht⟩
  | merge target source =>
    have ht := (h target).tallies.merge (h source).tallies
    rw [(h target).clamp] at ht
    exact ⟨(maxValue_merge _ _).trans (h target).clamp, ht⟩
  | reset target => exact ⟨(h target).clamp, Tallies.of_empty _⟩
  | snapshot source target => exact h source

variable [DecidableEq ι]

def apply (pool : ι → Histogram) (s : Step ι) : ι → Histogram :=
  Function.update pool s.target (s.histogram pool)

def track (streams : ι → Stream) (s : Step ι) : ι → Stream :=
  Function.update streams s.target (s.stream streams)

theorem apply_standsFor (h : ∀ i, StandsFor (pool i) (streams i)) (s : Step ι) (i : ι) :
    StandsFor (apply pool s i) (track streams s i) :=
  update_related h (histogram_standsFor h s) i

theorem foldl_standsFor (h : ∀ i, StandsFor (pool i) (streams i)) (steps : List (Step ι)) (i : ι) :
    StandsFor (steps.foldl apply pool i) (steps.foldl track streams i) := by
  induction steps generalizing pool streams with
  | nil => exact h i
  | cons s steps ih => exact ih (apply_standsFor h s)

/-- After every run on a pool each histogram counts its list, in all and bucket by bucket, has the
value of each rank of the list, and answers quantiles along the line through its ordered values.
Histograms under one clamp are equal exactly if their lists are equal up to order, and a merge is what
inserting any values gives that are those of both lists under the clamp. -/
theorem run_exact (clamps : ι → Nat) (steps : List (Step ι)) :
    let pool := steps.foldl apply fun i => empty (clamps i)
    let streams := steps.foldl track fun i => ⟨clamps i, []⟩
    (∀ i, let h := pool i
      let values := (streams i).values
      h.maxValue = (streams i).clamp ∧ h.count = values.length ∧
        h.buckets.toList.sum = values.length ∧
        (∀ v, h.bucket v = values.count (min v h.maxValue)) ∧
        (∀ r < h.count, (ranked values)[r]? = some (h.valueAtRank r)) ∧
        ∀ q : Rat, 0 ≤ q → q ≤ 1 → h.quantile q =
          if values = [] then none else some (line (ranked values) (q * (h.count - 1 : Nat)))) ∧
      (∀ i j, (streams i).clamp = (streams j).clamp →
        (pool i = pool j ↔ (streams i).values.Perm (streams j).values)) ∧
      ∀ i j values, (pool i).merge (pool j) = fill (streams i).clamp values ↔
        (values.map (min · (streams i).clamp)).Perm
          ((streams i).values ++ (streams j).values.map (min · (streams i).clamp)) := by
  intro pool streams
  have hpool : ∀ i, StandsFor (pool i) (streams i) :=
    foldl_standsFor (fun i => ⟨rfl, Tallies.of_empty (clamps i)⟩) steps
  refine ⟨fun i => ?_, fun i j hclamp => ?_, fun i j values => ?_⟩
  · have ht := (hpool i).tallies
    refine ⟨(hpool i).clamp, ht.count, ht.sum_buckets, ht.bucket_eq, ?_, ?_⟩
    · intro r hr
      rw [ht.count] at hr
      exact ht.valueAtRank hr
    · intro q hq0 hq1
      rw [ht.count]
      exact ht.quantile hq0 hq1
  · refine (hpool i).tallies.eq_iff_perm (hpool j).tallies ?_
    rw [(hpool i).clamp, (hpool j).clamp, hclamp]
  · have hmerge := histogram_standsFor hpool (.merge i j)
    have hfill := fill_standsFor (streams i).clamp values
    rw [List.perm_comm]
    exact hmerge.tallies.eq_iff_perm hfill.tallies (hmerge.clamp.trans hfill.clamp.symm)

end Run

end Histogram

end QuantileMonitor.Quantile
