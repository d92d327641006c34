import Mathlib.Data.List.Induction
import QuantileMonitor.Window.Basic

/-! Histories: the values that a window takes and its resets, in the order in which they happen. -/

namespace QuantileMonitor

open Quantile

inductive Change
  | value (v : Nat)
  | reset
deriving DecidableEq

namespace Change

def keep (values : List Nat) : Change → List Nat
  | .value v => values ++ [v]
  | .reset => []

def latest (changes : List Change) : List Nat := changes.foldl keep []

def recorded (changes : List Change) : List Nat :=
  changes.filterMap fun
    | .value v => some v
    | .reset => none

theorem latest_concat (changes : List Change) (c : Change) :
    latest (changes ++ [c]) = c.keep (latest changes) := by
  rw [latest, List.foldl_append]
  rfl

theorem latest_values (values : List Nat) : latest (values.map value) = values := by
  induction values using List.reverseRecOn with
  | nil => rfl
  | append_singleton values v ih =>
    rw [List.map_append, List.map_singleton, latest_concat, ih]
    rfl

theorem recorded_append (changes more : List Change) :
    recorded (changes ++ more) = recorded changes ++ recorded more :=
  List.filterMap_append

theorem latest_suffix (changes : List Change) : latest changes <:+ recorded changes := by
  induction changes using List.reverseRecOn with
  | nil => exact List.suffix_refl _
  | append_singleton changes c ih =>
    rw [latest_concat, recorded_append]
    cases c with
    | value v =>
      obtain ⟨first, hfirst⟩ := ih
      exact ⟨first, by rw [← hfirst, List.append_assoc]; rfl⟩
    | reset => exact List.nil_suffix

theorem latest_of_no_reset {changes : List Change} (h : reset ∉ changes) :
    latest changes = recorded changes := by
  induction changes using List.reverseRecOn with
  | nil => rfl
  | append_singleton changes c ih =>
    rw [List.mem_append, not_or] at h
    rw [latest_concat, recorded_append, ih h.1]
    cases c with
    | value v => rfl
    | reset => exact absurd (List.mem_singleton_self reset) h.2

end Change

namespace EntityStats

variable {γ : Type} [Draws γ]

def change (s : EntityStats γ) : Change → EntityStats γ
  | .value v => s.record v
  | .reset => s.resetInterval

def replay (strategy : Strategy) (draws : γ × γ) (changes : List Change) : EntityStats γ :=
  changes.foldl change (.empty strategy draws)

end EntityStats

end QuantileMonitor
