import Mathlib.Data.List.Forall2
import QuantileMonitor.Quantile.Reservoir

/-!
# What a reservoir keeps

While there is room a reservoir keeps what it takes and draws nothing. Once it is full each value goes to
the slot that was drawn below the number of values seen with it, if there is such a slot. The values
themselves decide nothing, so a reservoir that takes positions tells which arrivals any stream leaves
in it.
-/

namespace QuantileMonitor.Quantile.Reservoir

variable {γ : Type}

section Insert

variable [Draws γ] (r : Reservoir γ) (v : Nat)

theorem insert_of_room (h : r.samples.size < r.capacity) :
    r.insert v =
      { r with
        samples := r.samples.push v
        seen := r.seen + 1
        sorted := false
        reserved := grown r.samples.size r.reserved } := by
  cases r
  exact if_pos h

theorem insert_of_full (h : ¬r.samples.size < r.capacity) :
    r.insert v =
      { r with
        samples := place r.samples (Draws.below (r.seen + 1) r.draws).1 v
        seen := r.seen + 1
        sorted := false
        draws := (Draws.below (r.seen + 1) r.draws).2 } := by
  cases r
  exact if_neg h

@[simp] theorem capacity_insert : (r.insert v).capacity = r.capacity := by
  by_cases h : r.samples.size < r.capacity
  · rw [insert_of_room r v h]
  · rw [insert_of_full r v h]

@[simp] theorem seen_insert : (r.insert v).seen = r.seen + 1 := by
  by_cases h : r.samples.size < r.capacity
  · rw [insert_of_room r v h]
  · rw [insert_of_full r v h]

theorem size_insert :
    (r.insert v).samples.size =
      if r.samples.size < r.capacity then r.samples.size + 1 else r.samples.size := by
  split_ifs with h
  · rw [insert_of_room r v h, Array.size_push]
  · rw [insert_of_full r v h, place, Array.size_setIfInBounds]

end Insert

def relabel (f : Nat → Nat) (r : Reservoir γ) : Reservoir γ :=
  { r with samples := r.samples.map f }

theorem relabel_insert [Draws γ] (f : Nat → Nat) (r : Reservoir γ) (v : Nat) :
    (r.relabel f).insert (f v) = (r.insert v).relabel f := by
  by_cases h : r.samples.size < r.capacity
  · rw [insert_of_room r v h, insert_of_room _ _ (by simpa [relabel] using h)]
    simp [relabel]
  · rw [insert_of_full r v h, insert_of_full _ _ (by simpa [relabel] using h)]
    simp [relabel, place, Array.map_setIfInBounds]

theorem relabel_foldl_insert [Draws γ] (f : Nat → Nat) (r : Reservoir γ) (values : List Nat) :
    (values.map f).foldl insert (r.relabel f) = (values.foldl insert r).relabel f := by
  induction values generalizing r with
  | nil => rfl
  | cons v values ih => rw [List.map_cons, List.foldl_cons, relabel_insert, ih, List.foldl_cons]

/-- Choices written down beforehand, and the bounds under which they were asked for. -/
structure Tape where
  choices : List Nat
  asked : List Nat

instance : Draws Tape where
  below bound t := (t.choices.headD 0, ⟨t.choices.tail, t.asked ++ [bound]⟩)

def restart (r : Reservoir Tape) (choices : List Nat) : Reservoir Tape :=
  { r.reset with draws := ⟨choices, []⟩ }

def takeAll (r : Reservoir Tape) (choices values : List Nat) : Reservoir Tape :=
  values.foldl insert (r.restart choices)

def kept (r : Reservoir Tape) (choices : List Nat) (n : Nat) : List Nat :=
  (r.takeAll choices (List.range n)).samples.toList

def Free (r : Reservoir Tape) (values choices : List Nat) : Prop :=
  List.Forall₂ (· < ·) choices (r.takeAll choices values).draws.asked

theorem map_getD_range (values : List Nat) :
    ((List.range values.length).map fun i => values.getD i 0) = values := by
  refine List.ext_getElem (by simp) fun i _ hi => ?_
  simp [List.getD_eq_getElem?_getD, hi]

theorem takeAll_eq_relabel (r : Reservoir Tape) (choices values : List Nat) :
    r.takeAll choices values =
      (r.takeAll choices (List.range values.length)).relabel fun i => values.getD i 0 := by
  have hrun := relabel_foldl_insert (fun i => values.getD i 0) (r.restart choices)
    (List.range values.length)
  have hempty : (r.restart choices).relabel (fun i => values.getD i 0) = r.restart choices := by
    simp [relabel, restart, reset]
  rw [map_getD_range, hempty] at hrun
  exact hrun

theorem samples_takeAll (r : Reservoir Tape) (choices values : List Nat) :
    (r.takeAll choices values).samples.toList =
      (r.kept choices values.length).map fun i => values.getD i 0 := by
  rw [takeAll_eq_relabel, relabel, kept, Array.toList_map]

theorem draws_takeAll (r : Reservoir Tape) (choices values : List Nat) :
    (r.takeAll choices values).draws = (r.takeAll choices (List.range values.length)).draws := by
  rw [takeAll_eq_relabel]
  rfl

/-- The slots after some choices: each arrival past the first ones goes to the slot chosen for it. -/
def slots (capacity : Nat) (choices : List Nat) : List Nat :=
  (choices.zipIdx capacity).foldl (fun l e => l.set e.1 e.2) (List.range capacity)

theorem slots_concat (capacity : Nat) (choices : List Nat) (d : Nat) :
    slots capacity (choices ++ [d]) =
      (slots capacity choices).set d (capacity + choices.length) := by
  rw [slots, List.zipIdx_append, List.foldl_append]
  rfl

theorem takeAll_range_of_room (r : Reservoir Tape) (choices : List Nat) {n : Nat}
    (hn : n ≤ r.capacity) :
    let s := r.takeAll choices (List.range n)
    s.capacity = r.capacity ∧ s.seen = n ∧ s.samples = (List.range n).toArray ∧
      s.draws = ⟨choices, []⟩ := by
  induction n with
  | zero => exact ⟨rfl, rfl, rfl, rfl⟩
  | succ n ih =>
    obtain ⟨hcapacity, hseen, hsamples, hdraws⟩ := ih (by omega)
    have hroom : (r.takeAll choices (List.range n)).samples.size <
        (r.takeAll choices (List.range n)).capacity := by
      rw [hcapacity, hsamples, List.size_toArray, List.length_range]
      exact hn
    have hstep : r.takeAll choices (List.range (n + 1)) =
        (r.takeAll choices (List.range n)).insert n := by
      rw [takeAll, List.range_succ, List.foldl_append]
      rfl
    dsimp only
    rw [hstep, insert_of_room _ _ hroom]
    refine ⟨hcapacity, by rw [hseen], ?_, hdraws⟩
    rw [hsamples, List.push_toArray, List.range_succ]

theorem takeAll_range_of_full (r : Reservoir Tape) (choices : List Nat) (m : Nat) :
    let s := r.takeAll choices (List.range (r.capacity + m))
    s.capacity = r.capacity ∧ s.seen = r.capacity + m ∧ s.samples.size = r.capacity ∧
      s.draws = ⟨choices.drop m, List.range' (r.capacity + 1) m⟩ ∧
      (m ≤ choices.length → s.samples.toList = slots r.capacity (choices.take m)) := by
  induction m with
  | zero =>
    obtain ⟨hcapacity, hseen, hsamples, hdraws⟩ :=
      takeAll_range_of_room r choices (Nat.le_refl r.capacity)
    refine ⟨hcapacity, hseen, ?_, hdraws, fun _ => ?_⟩
    · rw [Nat.add_zero, hsamples]
      simp
    · rw [Nat.add_zero, hsamples]
      rfl
  | succ m ih =>
    obtain ⟨hcapacity, hseen, hsize, hdraws, hslots⟩ := ih
    have hfull : ¬(r.takeAll choices (List.range (r.capacity + m))).samples.size <
        (r.takeAll choices (List.range (r.capacity + m))).capacity := by
      rw [hcapacity, hsize]
      exact Nat.lt_irrefl _
    have hstep : r.takeAll choices (List.range (r.capacity + (m + 1))) =
        (r.takeAll choices (List.range (r.capacity + m))).insert (r.capacity + m) := by
      rw [takeAll, ← Nat.add_assoc, List.range_succ, List.foldl_append]
      rfl
    dsimp only
    rw [hstep, insert_of_full _ _ hfull, hdraws, hseen]
    refine ⟨hcapacity, rfl, ?_, ?_, fun hm => ?_⟩
    · rw [place, Array.size_setIfInBounds, hsize]
    · have hasked : List.range' (r.capacity + 1) m ++ [r.capacity + m + 1] =
          List.range' (r.capacity + 1) (m + 1) := by
        rw [List.range'_1_concat]
        congr 2
        omega
      simp only [Draws.below, List.tail_drop, hasked]
    · have hchoice : (choices.drop m).headD 0 = choices[m] := by
        rw [List.drop_eq_getElem_cons hm]
        rfl
      have htake : choices.take (m + 1) = choices.take m ++ [choices[m]] :=
        List.take_succ_eq_append_getElem hm
      have hlength : (choices.take m).length = m := List.length_take_of_le (Nat.le_of_lt hm)
      rw [place, Array.toList_setIfInBounds, hslots (Nat.le_of_lt hm), htake, slots_concat, hlength]
      simp only [Draws.below, hchoice]

end QuantileMonitor.Quantile.Reservoir
