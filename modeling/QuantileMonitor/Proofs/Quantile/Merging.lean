import QuantileMonitor.Proofs.Quantile.Pool
import QuantileMonitor.Proofs.Quantile.Scales
import QuantileMonitor.Proofs.Quantile.Union

/-!
# Pools of sketches

Sketches of their own accuracies take values, take over the values of one another, are emptied and copied.
Beside each stands the list of all values that came to it, on whatever way, and after every run it is the
sketch that was given that list. A merge is refused between accuracies with different buckets, and then
changes nothing.
-/

namespace QuantileMonitor.Quantile.LogSketch

open Histogram (Step)

structure Stream where
  accuracy : Float
  values : List Nat

def fill (accuracy : Float) (values : List Nat) : LogSketch := values.foldl insert (empty accuracy)

structure StandsFor (s : LogSketch) (t : Stream) : Prop where
  accepted : (Strategy.sketch t.accuracy).check = .ok ()
  scale : s.scale = .ofAccuracy t.accuracy
  tallies : s.body.Tallies (LogScale.ofAccuracy t.accuracy).key t.values

theorem fill_eq (accuracy : Float) (values : List Nat) :
    fill accuracy values =
      ⟨.ofAccuracy accuracy, values.foldl (Sketch.insert (LogScale.ofAccuracy accuracy).key) .empty⟩ := by
  have hfold : ∀ body : Sketch, values.foldl insert ⟨.ofAccuracy accuracy, body⟩ =
      ⟨.ofAccuracy accuracy, values.foldl (Sketch.insert (LogScale.ofAccuracy accuracy).key) body⟩ := by
    induction values with
    | nil => exact fun body => rfl
    | cons v values ih => exact fun body => ih _
  exact hfold .empty

theorem fill_standsFor {accuracy : Float} (h : (Strategy.sketch accuracy).check = .ok ())
    (values : List Nat) : StandsFor (fill accuracy values) ⟨accuracy, values⟩ := by
  rw [fill_eq]
  refine ⟨h, rfl, ?_⟩
  exact (Sketch.empty_tallies (LogScale.ofAccuracy accuracy).key).foldl_insert values

theorem copy_eq (s : LogSketch) : s.copy = s := by
  rw [copy, Sketch.copy_eq]

namespace StandsFor

variable {s s' : LogSketch} {t t' : Stream}

theorem eq_fill (h : StandsFor s t) {values : List Nat} (hperm : values.Perm t.values) :
    s = fill t.accuracy values := by
  have hfill := fill_standsFor h.accepted values
  have hbody := h.tallies.unique hfill.tallies hperm.symm
  have hscale := h.scale.trans hfill.scale.symm
  calc s = ⟨s.scale, s.body⟩ := rfl
    _ = ⟨(fill t.accuracy values).scale, (fill t.accuracy values).body⟩ := by rw [hscale, hbody]

theorem insert (h : StandsFor s t) (v : Nat) : StandsFor (s.insert v) { t with values := t.values ++ [v] } := by
  refine ⟨h.accepted, h.scale, ?_⟩
  rw [LogSketch.insert, h.scale]
  exact h.tallies.insert v

theorem reset (h : StandsFor s t) : StandsFor s.reset { t with values := [] } :=
  ⟨h.accepted, h.scale, Sketch.empty_tallies _⟩

theorem copy (h : StandsFor s t) : StandsFor s.copy t := by
  rw [copy_eq]
  exact h

theorem merge (h : StandsFor s t) (h' : StandsFor s' t')
    (hinner : innerAccuracy t.accuracy = innerAccuracy t'.accuracy) :
    s.merge s' = .ok { s with body := s.body.merge s'.body } ∧
      StandsFor { s with body := s.body.merge s'.body } { t with values := t.values ++ t'.values } := by
  have hagrees := (LogScale.agrees_iff h.accepted h'.accepted).mpr hinner
  have hother := h'.tallies
  rw [← LogScale.ofAccuracy_key hinner] at hother
  refine ⟨?_, h.accepted, h.scale, h.tallies.merge hother⟩
  rw [LogSketch.merge, h.scale, h'.scale, if_pos hagrees]

theorem merge_refused (h : StandsFor s t) (h' : StandsFor s' t')
    (hinner : innerAccuracy t.accuracy ≠ innerAccuracy t'.accuracy) :
    s.merge s' = .error ⟨t.accuracy, t'.accuracy⟩ := by
  have hagrees := mt (LogScale.agrees_iff h.accepted h'.accepted).mp hinner
  rw [LogSketch.merge, h.scale, h'.scale, if_neg hagrees]
  rfl

end StandsFor

section Run

variable {ι : Type} [DecidableEq ι]

def step (pool : ι → LogSketch) : Step ι → Except AccuracyMismatch (ι → LogSketch)
  | .insert target v => .ok (Function.update pool target ((pool target).insert v))
  | .merge target source =>
    ((pool target).merge (pool source)).map fun merged => Function.update pool target merged
  | .reset target => .ok (Function.update pool target (pool target).reset)
  | .snapshot source target => .ok (Function.update pool target (pool source).copy)

def apply (pool : ι → LogSketch) (s : Step ι) : ι → LogSketch :=
  match step pool s with
  | .ok pool => pool
  | .error _ => pool

def track (streams : ι → Stream) : Step ι → ι → Stream
  | .insert target v =>
    let t := streams target
    Function.update streams target { t with values := t.values ++ [v] }
  | .merge target source =>
    let t := streams target
    let other := streams source
    if innerAccuracy t.accuracy = innerAccuracy other.accuracy then
      Function.update streams target { t with values := t.values ++ other.values }
    else streams
  | .reset target => Function.update streams target { streams target with values := [] }
  | .snapshot source target => Function.update streams target (streams source)

variable {pool : ι → LogSketch} {streams : ι → Stream}

theorem apply_merge_refused {target source : ι} {e : AccuracyMismatch}
    (h : (pool target).merge (pool source) = .error e) : apply pool (.merge target source) = pool := by
  rw [apply, step, h]
  rfl

theorem apply_of_ne_target (pool : ι → LogSketch) (s : Step ι) {i : ι} (hi : i ≠ s.target) :
    apply pool s i = pool i := by
  cases s with
  | insert target v => exact Function.update_of_ne hi _ _
  | merge target source =>
    cases hmerge : (pool target).merge (pool source) with
    | error e => rw [apply_merge_refused hmerge]
    | ok merged =>
      rw [apply, step, hmerge]
      exact Function.update_of_ne hi _ _
  | reset target => exact Function.update_of_ne hi _ _
  | snapshot source target => exact Function.update_of_ne hi _ _

theorem apply_standsFor (h : ∀ i, StandsFor (pool i) (streams i)) (s : Step ι) (i : ι) :
    StandsFor (apply pool s i) (track streams s i) := by
  cases s with
  | insert target v => exact update_related h ((h target).insert v) i
  | merge target source =>
    by_cases hinner : innerAccuracy (streams target).accuracy = innerAccuracy (streams source).accuracy
    · obtain ⟨hmerge, hs⟩ := (h target).merge (h source) hinner
      rw [apply, step, hmerge, track, if_pos hinner]
      exact update_related h hs i
    · rw [apply_merge_refused ((h target).merge_refused (h source) hinner), track, if_neg hinner]
      exact h i
  | reset target => exact update_related h (h target).reset i
  | snapshot source target => exact update_related h (h source).copy i

theorem foldl_standsFor (h : ∀ i, StandsFor (pool i) (streams i)) (steps : List (Step ι)) (i : ι) :
    StandsFor (steps.foldl apply pool i) (steps.foldl track streams i) := by
  induction steps generalizing pool streams with
  | nil => exact h i
  | cons s steps ih => exact ih (apply_standsFor h s)

theorem track_accuracy (streams : ι → Stream) (s : Step ι) (i : ι) :
    ∃ j, (track streams s i).accuracy = (streams j).accuracy := by
  have hupdate : ∀ (target j : ι) (values : List Nat),
      ∃ k, (Function.update streams target ⟨(streams j).accuracy, values⟩ i).accuracy =
        (streams k).accuracy := by
    intro target j values
    by_cases hi : i = target
    · exact ⟨j, by rw [hi, Function.update_self]⟩
    · exact ⟨i, by rw [Function.update_of_ne hi]⟩
  cases s with
  | insert target v => exact hupdate target target _
  | merge target source =>
    rw [track]
    split
    · exact hupdate target target _
    · exact ⟨i, rfl⟩
  | reset target => exact hupdate target target _
  | snapshot source target => exact hupdate target source _

theorem foldl_track_accuracy (streams : ι → Stream) (steps : List (Step ι)) (i : ι) :
    ∃ j, (steps.foldl track streams i).accuracy = (streams j).accuracy := by
  induction steps generalizing streams with
  | nil => exact ⟨i, rfl⟩
  | cons s steps ih =>
    obtain ⟨j, hj⟩ := ih (track streams s)
    obtain ⟨k, hk⟩ := track_accuracy streams s j
    exact ⟨k, hj.trans hk⟩

/-- After every run on a pool each sketch is the one that was given the values of its stream, in any
order, and its copy is itself. Two of them merge to the sketch of both streams exactly if their accuracies
lead to one inner accuracy; otherwise the merge is refused and the pool stays. A step leaves every sketch
but its target as it was. -/
theorem run_fills (accuracies : ι → Float)
    (haccepted : ∀ i, (Strategy.sketch (accuracies i)).check = .ok ()) (steps : List (Step ι)) :
    let pool := steps.foldl apply fun i => empty (accuracies i)
    let streams := steps.foldl track fun i => ⟨accuracies i, []⟩
    (∀ i, let s := pool i
      let t := streams i
      (∃ j, t.accuracy = accuracies j) ∧
        (∀ values, values.Perm t.values → s = fill t.accuracy values) ∧ s.copy = s ∧
        s.count = t.values.length ∧ s.body.zeros = t.values.count 0 ∧
        s.body.least = (positives t.values).min? ∧ s.body.greatest = t.values.max?.getD 0) ∧
      (∀ i j, (pool i).merge (pool j) =
        if innerAccuracy (streams i).accuracy = innerAccuracy (streams j).accuracy then
          .ok (fill (streams i).accuracy ((streams i).values ++ (streams j).values))
        else .error ⟨(streams i).accuracy, (streams j).accuracy⟩) ∧
      (∀ i j e, (pool i).merge (pool j) = .error e → apply pool (.merge i j) = pool) ∧
      ∀ s i, i ≠ s.target → apply pool s i = pool i := by
  intro pool streams
  have hpool : ∀ i, StandsFor (pool i) (streams i) :=
    foldl_standsFor (fun i => fill_standsFor (haccepted i) []) steps
  refine ⟨?_, ?_, fun i j e => apply_merge_refused, fun s i => apply_of_ne_target pool s⟩
  · intro i s t
    have hs : s.body.Tallies (LogScale.ofAccuracy t.accuracy).key t.values := (hpool i).tallies
    refine ⟨foldl_track_accuracy _ steps i, ?_, copy_eq s, hs.count, hs.zeros, hs.least, hs.greatest⟩
    intro values hperm
    exact (hpool i).eq_fill hperm
  · intro i j
    split_ifs with hinner
    · obtain ⟨hmerge, hs⟩ := (hpool i).merge (hpool j) hinner
      rw [hmerge, hs.eq_fill (List.Perm.refl _)]
    · exact (hpool i).merge_refused (hpool j) hinner

theorem run_fills_half :
    let steps : List (Step Bool) := [.insert true 7, .insert false 0, .merge true false, .snapshot true false]
    (Strategy.sketch 0.5).check = .ok () ∧
      steps.foldl apply (fun _ => empty 0.5) false = fill 0.5 [0, 7] := by
  intro steps
  have haccepted : (Strategy.sketch 0.5).check = .ok () := rfl
  refine ⟨haccepted, ?_⟩
  obtain ⟨hslots, -⟩ := run_fills (fun _ : Bool => 0.5) (fun _ => haccepted) steps
  obtain ⟨-, hfill, -⟩ := hslots false
  have hstream : steps.foldl track (fun _ => ⟨0.5, []⟩) false = ⟨0.5, [7, 0]⟩ := by
    simp [steps, track]
  rw [hstream] at hfill
  exact hfill [0, 7] (by decide)

/-- Two accuracies that differ in their last bit have one inner accuracy, and merge. -/
theorem merge_of_near_accuracies :
    (Strategy.sketch 0.9).check = .ok () ∧ (Strategy.sketch 0.9000000000000001).check = .ok () ∧
      (0.9 : Float) ≠ 0.9000000000000001 ∧
      (empty 0.9).merge ((empty 0.9000000000000001).insert 7) = .ok ((empty 0.9).insert 7) := by
  have haccepted : (Strategy.sketch 0.9).check = .ok () := rfl
  have haccepted' : (Strategy.sketch 0.9000000000000001).check = .ok () := rfl
  have hinner : innerAccuracy (0.9 : Float) = innerAccuracy 0.9000000000000001 := by decide +kernel
  refine ⟨haccepted, haccepted', by decide +kernel, ?_⟩
  obtain ⟨hmerge, hs⟩ := (fill_standsFor haccepted []).merge (fill_standsFor haccepted' [7]) hinner
  exact hmerge.trans (congrArg Except.ok (hs.eq_fill (List.Perm.refl [7])))

end Run

end QuantileMonitor.Quantile.LogSketch
