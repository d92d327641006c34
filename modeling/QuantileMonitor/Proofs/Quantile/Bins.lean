import Mathlib.Algebra.GroupWithZero.Nat
import QuantileMonitor.Quantile.Bins

/-!
# Bins as a list

Written out, a bag of keys is the ascending list in which every key stands as often as it was added,
and the key at a rank is the entry of that list at that index.
-/

namespace QuantileMonitor.Quantile.Bins

def expand (counts : List (Nat × Nat)) : List Nat :=
  counts.flatMap fun (k, n) => List.replicate n k

def spread (b : Bins) : List Nat := expand b.toList

theorem expand_cons (k n : Nat) (counts : List (Nat × Nat)) :
    expand ((k, n) :: counts) = List.replicate n k ++ expand counts := rfl

theorem length_expand (counts : List (Nat × Nat)) :
    (expand counts).length = (counts.map (·.2)).sum := by
  induction counts with
  | nil => rfl
  | cons entry counts ih =>
    rw [expand_cons, List.length_append, List.length_replicate, ih, List.map_cons, List.sum_cons]

theorem walk_eq {counts : List (Nat × Nat)} {rank : Nat} (h : rank < (expand counts).length) :
    walk counts rank = (expand counts)[rank]? := by
  induction counts generalizing rank with
  | nil => exact absurd h (Nat.not_lt_zero rank)
  | cons entry counts ih =>
    obtain ⟨k, n⟩ := entry
    rw [expand_cons, List.length_append, List.length_replicate] at h
    rw [expand_cons]
    cases counts with
    | nil =>
      have hn : rank < n := h
      rw [walk, List.getElem?_append_left (by simpa using hn), List.getElem?_replicate_of_lt hn]
    | cons next rest =>
      by_cases hn : rank < n
      · rw [walk, if_pos hn, List.getElem?_append_left (by simpa using hn),
          List.getElem?_replicate_of_lt hn]
      · rw [walk, if_neg hn, ih (by omega), List.getElem?_append_right (by simpa using hn),
          List.length_replicate]

theorem keyAtRank_eq {b : Bins} {rank : Nat} (h : rank < b.spread.length) :
    b.keyAtRank rank = b.spread[rank]? :=
  walk_eq h

theorem walk_isSome {counts : List (Nat × Nat)} (h : counts ≠ []) (rank : Nat) :
    (walk counts rank).isSome := by
  induction counts generalizing rank with
  | nil => exact absurd rfl h
  | cons entry counts ih =>
    cases counts with
    | nil => rfl
    | cons next rest =>
      rw [walk]
      split
      · rfl
      · exact ih (List.cons_ne_nil next rest) _

theorem keyAtRank_isSome {b : Bins} (h : b.spread ≠ []) (rank : Nat) :
    (b.keyAtRank rank).isSome := by
  refine walk_isSome (fun hnil => h ?_) rank
  rw [spread, hnil]
  rfl

theorem count_expand_of_not_mem {counts : List (Nat × Nat)} {k : Nat}
    (h : ∀ n, (k, n) ∉ counts) : (expand counts).count k = 0 := by
  rw [List.count_eq_zero, expand, List.mem_flatMap]
  rintro ⟨⟨j, n⟩, hmem, hk⟩
  obtain rfl := List.eq_of_mem_replicate hk
  exact h n hmem

theorem count_expand_of_mem {counts : List (Nat × Nat)}
    (hkeys : counts.Pairwise fun a b => a.1 < b.1) {k n : Nat} (h : (k, n) ∈ counts) :
    (expand counts).count k = n := by
  induction counts with
  | nil => cases h
  | cons entry counts ih =>
    obtain ⟨j, m⟩ := entry
    obtain ⟨hhead, htail⟩ := List.pairwise_cons.mp hkeys
    rw [expand_cons, List.count_append, List.count_replicate]
    rcases List.mem_cons.mp h with heq | hmem
    · obtain ⟨rfl, rfl⟩ := Prod.mk.inj heq
      have habsent : ∀ n, (k, n) ∉ counts := fun n hn => Nat.lt_irrefl k (hhead (k, n) hn)
      rw [count_expand_of_not_mem habsent, if_pos (beq_self_eq_true k), Nat.add_zero]
    · have hne : j ≠ k := Nat.ne_of_lt (hhead (k, n) hmem)
      rw [ih htail hmem, if_neg (by simpa using hne), Nat.zero_add]

theorem ascending_toList (b : Bins) : b.toList.Pairwise fun a b => a.1 < b.1 := by
  have h := b.ordered_keys_toList
  exact h.imp fun hab => Nat.compare_eq_lt.mp hab

theorem count_spread (b : Bins) (k : Nat) : b.spread.count k = b.countOf k := by
  rw [countOf, Std.ExtTreeMap.getD_eq_getD_getElem?]
  cases h : b[k]? with
  | none =>
    refine count_expand_of_not_mem fun n hn => ?_
    have hsome := Std.ExtTreeMap.mem_toList_iff_getElem?_eq_some.mp hn
    rw [h] at hsome
    cases hsome
  | some n =>
    exact count_expand_of_mem b.ascending_toList
      (Std.ExtTreeMap.mem_toList_iff_getElem?_eq_some.mpr h)

theorem expand_ascending {counts : List (Nat × Nat)} (hkeys : counts.Pairwise fun a b => a.1 < b.1) :
    (expand counts).Pairwise (· ≤ ·) := by
  refine List.pairwise_flatMap.mpr ⟨?_, ?_⟩
  · intro entry _
    exact List.pairwise_replicate.mpr (.inr (Nat.le_refl _))
  · refine hkeys.imp fun {a b} hab x hx y hy => ?_
    obtain rfl := List.eq_of_mem_replicate hx
    obtain rfl := List.eq_of_mem_replicate hy
    exact Nat.le_of_lt hab

theorem spread_ascending (b : Bins) : b.spread.Pairwise (· ≤ ·) :=
  expand_ascending b.ascending_toList

theorem countOf_add (b : Bins) (k n j : Nat) :
    (b.add k n).countOf j = b.countOf j + if k = j then n else 0 := by
  simp only [add, countOf, Std.ExtTreeMap.getD_insert, Nat.compare_eq_eq]
  by_cases h : k = j
  · rw [if_pos h, if_pos h, h]
  · rw [if_neg h, if_neg h, Nat.add_zero]

theorem spread_add (b : Bins) (k n : Nat) :
    (b.add k n).spread.Perm (List.replicate n k ++ b.spread) := by
  refine List.perm_iff_count.mpr fun j => ?_
  rw [List.count_append, count_spread, count_spread, countOf_add, List.count_replicate,
    Nat.add_comm]
  simp only [beq_iff_eq]

theorem getElem?_add (b : Bins) (k n j : Nat) :
    (b.add k n)[j]? = if k = j then some (b.countOf k + n) else b[j]? := by
  simp only [add, Std.ExtTreeMap.getElem?_insert, Nat.compare_eq_eq]

theorem getElem?_foldl_add {counts : List (Nat × Nat)}
    (hkeys : counts.Pairwise fun a b => a.1 < b.1) (b : Bins) (hnew : ∀ e ∈ counts, b[e.1]? = none)
    (k n : Nat) :
    (counts.foldl (fun b e => b.add e.1 e.2) b)[k]? = some n ↔
      (k, n) ∈ counts ∨ b[k]? = some n := by
  induction counts generalizing b with
  | nil => simp
  | cons e counts ih =>
    obtain ⟨j, m⟩ := e
    obtain ⟨hfirst, hrest⟩ := List.pairwise_cons.mp hkeys
    have hj : b[j]? = none := hnew _ List.mem_cons_self
    have hcount : b.countOf j = 0 := by
      rw [countOf, Std.ExtTreeMap.getD_eq_getD_getElem?, hj, Option.getD_none]
    have hnew' : ∀ e ∈ counts, (b.add j m)[e.1]? = none := by
      intro e he
      rw [getElem?_add, if_neg (Nat.ne_of_lt (hfirst e he))]
      exact hnew e (List.mem_cons_of_mem _ he)
    rw [List.foldl_cons, ih hrest (b.add j m) hnew', getElem?_add, hcount, Nat.zero_add,
      List.mem_cons]
    by_cases hk : j = k
    · subst hk
      rw [if_pos rfl, hj]
      constructor
      · rintro (hmem | hn)
        · exact .inl (.inr hmem)
        · exact .inl (.inl (by rw [Option.some.inj hn]))
      · rintro ((heq | hmem) | hnone)
        · exact .inr (by rw [(Prod.mk.inj heq).2])
        · exact .inl hmem
        · cases hnone
    · have hne : (k, n) ≠ (j, m) := fun heq => hk (Prod.mk.inj heq).1.symm
      rw [if_neg hk, or_iff_right hne]

theorem empty_union (b : Bins) : empty.union b = b := by
  refine Std.ExtTreeMap.ext_getElem? fun k => Option.ext fun n => ?_
  have hempty : ∀ j : Nat, empty[j]? = none := fun j => Std.ExtTreeMap.getElem?_empty
  rw [union, Std.ExtTreeMap.foldl_eq_foldl_toList,
    getElem?_foldl_add b.ascending_toList empty fun e _ => hempty e.1, hempty,
    Std.ExtTreeMap.mem_toList_iff_getElem?_eq_some]
  exact or_iff_left (by simp)

end QuantileMonitor.Quantile.Bins
