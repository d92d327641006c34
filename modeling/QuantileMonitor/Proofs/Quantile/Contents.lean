import QuantileMonitor.Proofs.Quantile.Bins
import QuantileMonitor.Proofs.Quantile.Ranked
import QuantileMonitor.Proofs.Stream
import QuantileMonitor.Quantile.LogSketch

/-!
# What a sketch holds

A sketch counts its zeros, keeps the extremes of its positive values and knows of each positive value
its key alone. Inserting a value appends it to what the sketch holds and a reset empties it.
-/

namespace QuantileMonitor.Quantile

namespace Sketch

structure Holds (key : Nat → Nat) (s : Sketch) (values : List Nat) : Prop where
  count : s.count = values.length
  zeros : s.zeros = values.count 0
  keys : s.bins.spread.Perm ((positives values).map key)
  least : s.least = (positives values).min?
  greatest : s.greatest = values.max?.getD 0

variable {key : Nat → Nat} {s : Sketch} {values : List Nat}

theorem empty_holds (key : Nat → Nat) : Holds key empty [] :=
  ⟨rfl, rfl, List.Perm.refl _, rfl, rfl⟩

theorem lesser_min? (values : List Nat) (v : Nat) :
    lesser values.min? (some v) = (values ++ [v]).min? := by
  rw [min?_concat]
  cases values.min? with
  | none => rfl
  | some m => rfl

theorem Holds.insert_zero (h : Holds key s values) :
    Holds key (s.insert key 0) (values ++ [0]) := by
  have hpositives : positives (values ++ [0]) = positives values := by
    simp [positives, List.filter_append]
  rw [insert, if_pos rfl]
  refine ⟨?_, ?_, ?_, ?_, ?_⟩
  · rw [List.length_append, ← h.count]
    rfl
  · rw [List.count_append, ← h.zeros]
    rfl
  · rw [hpositives]
    exact h.keys
  · rw [hpositives]
    exact h.least
  · rw [max?_concat, Option.getD_some, Nat.max_zero]
    exact h.greatest

theorem Holds.insert_positive (h : Holds key s values) {v : Nat} (hv : v ≠ 0) :
    Holds key (s.insert key v) (values ++ [v]) := by
  have hpositives : positives (values ++ [v]) = positives values ++ [v] := by
    simp [positives, List.filter_append, Nat.pos_of_ne_zero hv]
  rw [insert, if_neg hv]
  refine ⟨?_, ?_, ?_, ?_, ?_⟩
  · rw [List.length_append, ← h.count]
    rfl
  · rw [List.count_append, ← h.zeros, List.count_singleton, if_neg (by simpa using hv)]
    rfl
  · rw [hpositives, List.map_append]
    refine (Bins.spread_add s.bins (key v) 1).trans ?_
    exact List.perm_append_comm.trans (h.keys.append_right _)
  · rw [hpositives, ← lesser_min?, ← h.least]
  · rw [max?_concat, Option.getD_some, ← h.greatest]

theorem Holds.insert (h : Holds key s values) (v : Nat) :
    Holds key (s.insert key v) (values ++ [v]) := by
  by_cases hv : v = 0
  · subst hv
    exact h.insert_zero
  · exact h.insert_positive hv

def change (key : Nat → Nat) (s : Sketch) : Change → Sketch
  | .value v => s.insert key v
  | .reset => empty

def run (key : Nat → Nat) (changes : List Change) : Sketch := changes.foldl (change key) empty

theorem Holds.change (h : Holds key s values) (c : Change) :
    Holds key (s.change key c) (c.keep values) := by
  cases c with
  | value v => exact h.insert v
  | reset => exact empty_holds key

theorem foldl_holds (h : Holds key s values) (changes : List Change) :
    Holds key (changes.foldl (Sketch.change key) s) (changes.foldl Change.keep values) := by
  induction changes generalizing s values with
  | nil => exact h
  | cons c changes ih => exact ih (h.change c)

theorem run_holds (key : Nat → Nat) (changes : List Change) :
    Holds key (run key changes) (Change.latest changes) :=
  foldl_holds (empty_holds key) changes

theorem Holds.length_positives (h : Holds key s values) :
    (positives values).length = s.count - s.zeros := by
  have hsplit := count_zero_add_length_positives values
  rw [h.count, h.zeros]
  omega

theorem Holds.length_spread (h : Holds key s values) :
    s.bins.spread.length = s.count - s.zeros := by
  rw [h.keys.length_eq, List.length_map, h.length_positives]

section Answers

variable {α : Type} [Add α] [Mul α] [Div α] [LT α] [DecidableLT α] [Scalar α] (g : Grid α)

theorem inner_isSome (h : s.bins.spread ≠ []) (rank positive : Nat) :
    (s.inner g rank positive).isSome := by
  rw [inner]
  split
  · rw [Option.isSome_map]
    exact Bins.keyAtRank_isSome h _
  · rfl

theorem Holds.quantile_isSome_iff (h : Holds key s values) (q : α) :
    (s.quantile g q).isSome ↔ values ≠ [] := by
  constructor
  · rintro hsome rfl
    have hcount : s.count = 0 := h.count
    rw [quantile, if_pos hcount] at hsome
    cases hsome
  · intro hne
    have hcount : s.count ≠ 0 := by
      rw [h.count]
      exact mt List.length_eq_zero_iff.mp hne
    rw [quantile, if_neg hcount]
    dsimp only
    split
    · rfl
    · split
      · rfl
      · split
        · rfl
        · refine inner_isSome g (List.ne_nil_of_length_pos ?_) _ _
          rw [h.length_spread]
          omega

end Answers

theorem Holds.keyAtRank (h : Holds key s values)
    (hmono : ∀ v ∈ positives values, ∀ w ∈ positives values, v ≤ w → key v ≤ key w) {rank : Nat}
    (hrank : rank < s.count - s.zeros) :
    s.bins.keyAtRank rank = (ranked (positives values))[rank]?.map key := by
  rw [← h.length_spread] at hrank
  rw [Bins.keyAtRank_eq hrank, ascending_keys hmono s.bins.spread_ascending h.keys,
    List.getElem?_map]

end Sketch

namespace LogSketch

def change (s : LogSketch) : Change → LogSketch
  | .value v => s.insert v
  | .reset => s.reset

theorem body_foldl_change (s : LogSketch) (changes : List Change) :
    (changes.foldl change s).body = changes.foldl (Sketch.change s.scale.key) s.body := by
  induction changes generalizing s with
  | nil => rfl
  | cons c changes ih =>
    rw [List.foldl_cons, ih]
    cases c with
    | value v => rfl
    | reset => rfl

theorem body_run (accuracy : Float) (changes : List Change) :
    (changes.foldl change (empty accuracy)).body =
      Sketch.run (LogScale.ofAccuracy accuracy).key changes :=
  body_foldl_change (empty accuracy) changes

end LogSketch

end QuantileMonitor.Quantile
