import Mathlib.Algebra.Order.Ring.Pow
import Mathlib.Tactic.NormNum
import QuantileMonitor.Proofs.Quantile.Accuracy
import QuantileMonitor.Proofs.Quantile.Pool
import QuantileMonitor.Proofs.Quantile.Union
import QuantileMonitor.Quantile.Strategy

/-!
# Room for all words

At the finest accuracy a thousand buckets span a factor of two, so there is a bucket for every word long before
the limit on buckets. Sketches of one accuracy that take values, take over one another and are emptied
therefore never need more buckets than they have room for.
-/

namespace QuantileMonitor.Quantile

open Scalar
open Histogram (Step)

def finestAccuracy {α : Type} [Div α] [Scalar α] : α := ofNat 1 / ofNat 2000

theorem finestAccuracy_double : (finestAccuracy : Float) = Strategy.finest := by decide +kernel

theorem finestAccuracy_rat : (finestAccuracy : Rat) = 1 / 2000 := by
  rw [finestAccuracy, ofNat_rat, ofNat_rat]
  norm_num

namespace Grid

variable {factor : Rat}

theorem isLeast_key (hfactor : 1 < factor) {v : Nat} (hv : 0 < v) :
    IsLeast {k : Int | (v : Rat) ≤ factor ^ k} ((geometric factor).key v) := by
  refine ⟨?_, ?_⟩
  · simpa using le_pow_key hfactor v
  · intro k hk
    have hone : (1 : Rat) ≤ v := by exact_mod_cast hv
    cases k with
    | ofNat k =>
      exact Int.ofNat_le.mpr (Nat.sInf_le (by simpa using hk))
    | negSucc k =>
      -- Powers below the first are less than one.
      have hpow : factor ^ (Int.negSucc k) < 1 := zpow_lt_one_of_neg₀ hfactor (Int.negSucc_lt_zero k)
      exact absurd (hone.trans hk) (not_le.mpr hpow)

theorem key_one (factor : Rat) : (geometric factor).key 1 = 0 := Nat.sInf_eq_zero.mpr (.inl (by simp))

theorem key_bound_le (h : 1001 / 1000 ≤ factor) : (geometric factor).key Word.bound ≤ 64000 := by
  have htwo : 2 ≤ factor ^ 1000 :=
    calc (2 : Rat) = 1 + (1000 : Nat) * (1 / 1000) := by norm_num
      _ ≤ (1 + 1 / 1000) ^ 1000 := one_add_mul_le_pow (by norm_num) 1000
      _ ≤ factor ^ 1000 := pow_le_pow_left₀ (by norm_num) (by linarith) 1000
  refine Nat.sInf_le ?_
  calc ((Word.bound : Nat) : Rat) = 2 ^ 64 := by norm_num [Word.bound]
    _ ≤ (factor ^ 1000) ^ 64 := pow_le_pow_left₀ (by norm_num) htwo 64
    _ = factor ^ 64000 := (pow_mul factor 1000 64).symm

theorem room_eq (h : 1001 / 1000 ≤ factor) :
    (geometric factor).room = (geometric factor).key Word.top + 2 := by
  have hbound := key_bound_le h
  have htop : (geometric factor).key Word.top ≤ (geometric factor).key Word.bound :=
    key_mono (by linarith) (Nat.sub_le _ _)
  rw [room, binLimit]
  omega

end Grid

namespace Sketch

section Run

variable {ι : Type} [DecidableEq ι] {key : Nat → Nat} {pool : ι → Sketch} {streams : ι → List Nat}

def apply (key : Nat → Nat) (pool : ι → Sketch) : Step ι → ι → Sketch
  | .insert target v => Function.update pool target ((pool target).insert key v)
  | .merge target source => Function.update pool target ((pool target).merge (pool source))
  | .reset target => Function.update pool target empty
  | .snapshot source target => Function.update pool target (pool source).copy

def track (streams : ι → List Nat) : Step ι → ι → List Nat
  | .insert target v => Function.update streams target (streams target ++ [v])
  | .merge target source => Function.update streams target (streams target ++ streams source)
  | .reset target => Function.update streams target []
  | .snapshot source target => Function.update streams target (streams source)

theorem apply_holds (h : ∀ i, Holds key (pool i) (streams i)) (s : Step ι) (i : ι) :
    Holds key (apply key pool s i) (track streams s i) := by
  cases s with
  | insert target v => exact update_related h ((h target).insert v) i
  | merge target source => exact update_related h ((h target).merge (h source)) i
  | reset target => exact update_related h (empty_holds key) i
  | snapshot source target =>
    rw [apply, copy_eq]
    exact update_related h (h source) i

theorem foldl_apply_holds (h : ∀ i, Holds key (pool i) (streams i)) (steps : List (Step ι)) (i : ι) :
    Holds key (steps.foldl (apply key) pool i) (steps.foldl track streams i) := by
  induction steps generalizing pool streams with
  | nil => exact h i
  | cons s steps ih => exact ih (apply_holds h s)

variable {P : Nat → Prop}

theorem track_forall (h : ∀ i, ∀ v ∈ streams i, P v) {s : Step ι}
    (hs : ∀ target v, s = .insert target v → P v) (i : ι) : ∀ v ∈ track streams s i, P v := by
  have hupdate : ∀ (target : ι) {values : List Nat}, (∀ v ∈ values, P v) →
      ∀ v ∈ Function.update streams target values i, P v := fun target values hvalues =>
    (Function.forall_update_iff streams (p := fun _ values => ∀ v ∈ values, P v)).mpr
      ⟨hvalues, fun j _ => h j⟩ i
  cases s with
  | insert target v =>
    apply hupdate
    simpa [or_imp, forall_and] using And.intro (h target) (hs target v rfl)
  | merge target source =>
    apply hupdate
    simpa [or_imp, forall_and] using And.intro (h target) (h source)
  | reset target => exact hupdate target nofun
  | snapshot source target => exact hupdate target (h source)

theorem foldl_track_forall (h : ∀ i, ∀ v ∈ streams i, P v) {steps : List (Step ι)}
    (hsteps : ∀ target v, .insert target v ∈ steps → P v) (i : ι) :
    ∀ v ∈ steps.foldl track streams i, P v := by
  induction steps generalizing streams with
  | nil => exact h i
  | cons s steps ih =>
    refine ih (track_forall h fun target v hv => hsteps target v (hv ▸ List.mem_cons_self)) ?_
    exact fun target v hv => hsteps target v (List.mem_cons_of_mem s hv)

end Run

theorem Holds.bucketCount {key : Nat → Nat} {s : Sketch} {values : List Nat} (h : Holds key s values)
    (hkey : ∀ v w, v ≤ w → key v ≤ key w) (hpositive : positives values ≠ []) :
    ∃ least greatest, (positives values).min? = some least ∧ values.max? = some greatest ∧
      (s.bucketCount key : Int) = key greatest - key least + 1 ∧ 1 ≤ s.bucketCount key ∧
      s.bucketCount key ≤ key greatest + 1 ∧
      ∀ k ∈ s.bins.spread, key least ≤ k ∧ k ≤ key greatest := by
  obtain ⟨least, hleast⟩ := Option.isSome_iff_exists.mp (List.isSome_min?_of_ne_nil hpositive)
  obtain ⟨hmem, hmin⟩ := List.min?_eq_some_iff.mp hleast
  obtain ⟨hvalues, -⟩ := mem_positives.mp hmem
  obtain ⟨greatest, hgreatest⟩ := exists_greatest (List.ne_nil_of_mem hvalues)
  have hmax := (List.max?_eq_some_iff.mp hgreatest).2
  have hcount : s.bucketCount key = key greatest + 1 - key least := by
    rw [Sketch.bucketCount, h.least, hleast, h.greatest, hgreatest]
    rfl
  have hle := hkey least greatest (hmax least hvalues)
  refine ⟨least, greatest, hleast, hgreatest, by omega, by omega, by omega, ?_⟩
  intro k hk
  obtain ⟨v, hv, rfl⟩ := List.mem_map.mp (h.keys.mem_iff.mp hk)
  exact ⟨hkey least v (hmin v hv), hkey v greatest (hmax v (mem_positives.mp hv).1)⟩

theorem Holds.bucketCount_eq_zero {key : Nat → Nat} {s : Sketch} {values : List Nat}
    (h : Holds key s values) (hpositive : positives values = []) : s.bucketCount key = 0 := by
  rw [Sketch.bucketCount, h.least, hpositive]
  rfl

/-- On the scale of an accepted accuracy every positive word has a bucket, the lowest power of the factor from
it on, and the limit on buckets is not reached. After every run on a pool each sketch has the buckets from its
smallest positive value to its largest value, at least one and no more than there is room for, and none if it
has no positive value. The finest accuracy, as a double, is the one that accuracies are checked against. -/
theorem buckets_never_run_out {ι : Type} [DecidableEq ι] {alpha : Rat} (halpha : finestAccuracy ≤ alpha)
    (steps : List (Step ι)) (hwords : ∀ target v, .insert target v ∈ steps → v < Word.bound) :
    let g := Grid.geometric (1 + growth (innerAccuracy alpha))
    let pool := steps.foldl (apply g.key) fun _ => empty
    let streams := steps.foldl track fun _ => []
    (finestAccuracy : Float) = Strategy.finest ∧
      (∀ v : Nat, 0 < v → IsLeast {k : Int | (v : Rat) ≤ (1 + 2 * alpha) ^ k} (g.key v)) ∧
      (∀ v w, v ≤ w → g.key v ≤ g.key w) ∧ g.key 1 = 0 ∧
      g.key Word.bound + 2 ≤ Grid.binLimit ∧ g.room = g.key Word.top + 2 ∧
      (∀ v, v < Word.bound → g.key v + 2 ≤ g.room) ∧
      ∀ i, (positives (streams i) = [] → (pool i).bucketCount g.key = 0) ∧
        (positives (streams i) ≠ [] → ∃ least greatest, (positives (streams i)).min? = some least ∧
          (streams i).max? = some greatest ∧
          ((pool i).bucketCount g.key : Int) = g.key greatest - g.key least + 1 ∧
          1 ≤ (pool i).bucketCount g.key ∧ (pool i).bucketCount g.key ≤ g.room ∧
          ∀ k ∈ (pool i).bins.spread, g.key least ≤ k ∧ k ≤ g.key greatest) := by
  intro g pool streams
  rw [finestAccuracy_rat] at halpha
  have hfactor : 1 + growth (innerAccuracy alpha) = 1 + 2 * alpha := growth_innerAccuracy (by linarith)
  have hone : 1 < 1 + growth (innerAccuracy alpha) := by linarith
  have hwide : 1001 / 1000 ≤ 1 + growth (innerAccuracy alpha) := by linarith
  have hmono : ∀ v w, v ≤ w → g.key v ≤ g.key w := fun v w => Grid.key_mono hone
  have hbound : g.key Word.bound ≤ 64000 := Grid.key_bound_le hwide
  have hroom : g.room = g.key Word.top + 2 := Grid.room_eq hwide
  have hfits : ∀ v, v < Word.bound → g.key v + 2 ≤ g.room := by
    intro v hv
    rw [hroom]
    exact Nat.add_le_add_right (hmono v Word.top (Nat.le_sub_one_of_lt hv)) 2
  have hpool : ∀ i, Holds g.key (pool i) (streams i) :=
    foldl_apply_holds (fun _ => empty_holds g.key) steps
  have hstreams : ∀ i, ∀ v ∈ streams i, v < Word.bound := foldl_track_forall nofun hwords
  refine ⟨finestAccuracy_double, ?_, hmono, Grid.key_one _, ?_, hroom, hfits, ?_⟩
  · intro v hv
    rw [← hfactor]
    exact Grid.isLeast_key hone hv
  · rw [Grid.binLimit]
    omega
  · intro i
    refine ⟨(hpool i).bucketCount_eq_zero, fun hpositive => ?_⟩
    obtain ⟨least, greatest, hleast, hgreatest, hcount, hsome, hmost, hbetween⟩ :=
      (hpool i).bucketCount hmono hpositive
    have hword := hfits greatest (hstreams i greatest (List.max?_eq_some_iff.mp hgreatest).1)
    exact ⟨least, greatest, hleast, hgreatest, hcount, hsome, by omega, hbetween⟩

theorem buckets_never_run_out_finest :
    let steps : List (Step Bool) :=
      [.insert true 1, .insert false 0, .insert false 18446744073709551615, .merge true false]
    let g := Grid.geometric (1 + growth (innerAccuracy finestAccuracy))
    (finestAccuracy : Rat) ≤ finestAccuracy ∧
      (∀ target v, .insert target v ∈ steps → v < Word.bound) ∧
      ((steps.foldl (apply g.key) fun _ => empty) true).bucketCount g.key = g.key Word.top + 1 ∧
      g.key Word.top + 1 < Grid.binLimit := by
  intro steps g
  have hwords : ∀ target v, .insert target v ∈ steps → v < Word.bound := by
    simp [steps, Word.bound]
  obtain ⟨-, -, hmono, hfirst, hlimit, -, -, hslots⟩ :=
    buckets_never_run_out (le_refl finestAccuracy) steps hwords
  obtain ⟨least, greatest, hleast, hgreatest, hcount, -⟩ := (hslots true).2 (by simp [steps, track, positives])
  have hvalues : steps.foldl track (fun _ => []) true = [1, 0, 18446744073709551615] := by
    simp [steps, track]
  rw [hvalues] at hleast hgreatest
  obtain rfl : 1 = least := Option.some.inj hleast
  obtain rfl : 18446744073709551615 = greatest := Option.some.inj hgreatest
  have htop : g.key Word.top ≤ g.key Word.bound := hmono _ _ (Nat.sub_le _ _)
  have hlast : g.key 18446744073709551615 = g.key Word.top := rfl
  refine ⟨le_refl _, hwords, ?_, ?_⟩
  · simp only [g] at hcount hfirst hlast ⊢
    omega
  · simp only [g] at htop hlimit ⊢
    omega

end Sketch

end QuantileMonitor.Quantile
