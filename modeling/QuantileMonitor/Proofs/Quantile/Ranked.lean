/-!
# Values by rank

The order statistics of a list of values, and how the zeros among them stand before the others.
-/

namespace QuantileMonitor.Quantile

def ranked (values : List Nat) : List Nat := values.mergeSort (· ≤ ·)

def positives (values : List Nat) : List Nat := values.filter (0 < ·)

theorem ranked_perm (values : List Nat) : (ranked values).Perm values := List.mergeSort_perm _ _

theorem ranked_ascending (values : List Nat) : (ranked values).Pairwise (· ≤ ·) := by
  have htrans : ∀ a b c : Nat, decide (a ≤ b) = true → decide (b ≤ c) = true →
      decide (a ≤ c) = true := by
    intro a b c hab hbc
    simp only [decide_eq_true_eq] at hab hbc ⊢
    omega
  have htotal : ∀ a b : Nat, (decide (a ≤ b) || decide (b ≤ a)) = true := by
    intro a b
    simp only [Bool.or_eq_true, decide_eq_true_eq]
    omega
  exact (List.pairwise_mergeSort htrans htotal values).imp of_decide_eq_true

theorem length_ranked (values : List Nat) : (ranked values).length = values.length :=
  (ranked_perm values).length_eq

theorem mem_ranked {values : List Nat} {v : Nat} : v ∈ ranked values ↔ v ∈ values :=
  (ranked_perm values).mem_iff

theorem ascending_unique {l values : List Nat} (hl : l.Pairwise (· ≤ ·))
    (hvalues : values.Pairwise (· ≤ ·)) (h : l.Perm values) : l = values :=
  h.eq_of_pairwise (fun _ _ _ _ => Nat.le_antisymm) hl hvalues

theorem ranked_eq {l values : List Nat} (hl : l.Pairwise (· ≤ ·)) (h : l.Perm values) :
    ranked values = l :=
  ascending_unique (ranked_ascending values) hl ((ranked_perm values).trans h.symm)

theorem mem_positives {values : List Nat} {v : Nat} :
    v ∈ positives values ↔ v ∈ values ∧ 0 < v := by
  rw [positives, List.mem_filter, decide_eq_true_eq]

theorem perm_zeros_append (values : List Nat) :
    (List.replicate (values.count 0) 0 ++ positives values).Perm values := by
  have hzeros : values.filter (fun v => !decide (0 < v)) = List.replicate (values.count 0) 0 := by
    rw [← List.filter_eq]
    refine List.filter_congr fun v _ => ?_
    cases v <;> rfl
  rw [← hzeros]
  exact List.perm_append_comm.trans (List.filter_append_perm _ values)

theorem count_zero_add_length_positives (values : List Nat) :
    values.count 0 + (positives values).length = values.length := by
  have h := (perm_zeros_append values).length_eq
  rwa [List.length_append, List.length_replicate] at h

theorem ranked_zeros_append (values : List Nat) :
    ranked values = List.replicate (values.count 0) 0 ++ ranked (positives values) := by
  refine ranked_eq (List.pairwise_append.mpr ⟨?_, ranked_ascending _, ?_⟩) ?_
  · exact List.pairwise_replicate.mpr (.inr (Nat.le_refl _))
  · intro z hz v _
    obtain rfl := List.eq_of_mem_replicate hz
    exact Nat.zero_le v
  · exact ((ranked_perm (positives values)).append_left _).trans (perm_zeros_append values)

theorem ranked_getElem?_zero {values : List Nat} {i : Nat} (h : i < values.count 0) :
    (ranked values)[i]? = some 0 := by
  rw [ranked_zeros_append, List.getElem?_append_left (by simpa using h),
    List.getElem?_replicate_of_lt h]

theorem ranked_getElem?_positive {values : List Nat} {i : Nat} (h : values.count 0 ≤ i) :
    (ranked values)[i]? = (ranked (positives values))[i - values.count 0]? := by
  rw [ranked_zeros_append, List.getElem?_append_right (by simpa using h), List.length_replicate]

theorem ranked_getElem?_first (values : List Nat) : (ranked values)[0]? = values.min? := by
  have hsorted := ranked_ascending values
  cases hr : ranked values with
  | nil =>
    have hlength := length_ranked values
    rw [hr, List.length_nil] at hlength
    rw [List.eq_nil_of_length_eq_zero hlength.symm]
    rfl
  | cons first rest =>
    rw [hr] at hsorted
    refine (List.min?_eq_some_iff.mpr ⟨mem_ranked.mp (by simp [hr]), ?_⟩).symm
    intro v hv
    rw [← mem_ranked, hr] at hv
    rcases List.mem_cons.mp hv with rfl | hrest
    · exact Nat.le_refl v
    · exact (List.pairwise_cons.mp hsorted).1 v hrest

theorem ranked_getElem?_last (values : List Nat) :
    (ranked values)[values.length - 1]? = values.max? := by
  have hsorted := List.pairwise_iff_getElem.mp (ranked_ascending values)
  rw [← length_ranked]
  by_cases hlast : (ranked values).length - 1 < (ranked values).length
  · rw [List.getElem?_eq_getElem hlast]
    refine (List.max?_eq_some_iff.mpr ⟨mem_ranked.mp (List.getElem_mem hlast), ?_⟩).symm
    intro v hv
    obtain ⟨i, hi, rfl⟩ := List.mem_iff_getElem.mp (mem_ranked.mpr hv)
    by_cases heq : i = (ranked values).length - 1
    · subst heq
      exact Nat.le_refl _
    · exact hsorted i _ hi hlast (by omega)
  · have hlength := length_ranked values
    have hnil : values = [] := List.eq_nil_of_length_eq_zero (by omega)
    rw [List.getElem?_eq_none (by omega), hnil]
    rfl

theorem exists_least {values : List Nat} (h : values.count 0 < values.length) :
    ∃ m, (positives values).min? = some m ∧ (ranked values)[values.count 0]? = some m := by
  have hsplit := count_zero_add_length_positives values
  have hne : positives values ≠ [] := by
    intro hnil
    rw [hnil, List.length_nil] at hsplit
    omega
  obtain ⟨m, hm⟩ := Option.ne_none_iff_exists'.mp (mt List.min?_eq_none_iff.mp hne)
  refine ⟨m, hm, ?_⟩
  rw [ranked_getElem?_positive (Nat.le_refl _), Nat.sub_self, ranked_getElem?_first, hm]

theorem exists_greatest {values : List Nat} (h : values ≠ []) : ∃ m, values.max? = some m :=
  Option.ne_none_iff_exists'.mp (mt List.max?_eq_none_iff.mp h)

theorem ranked_le {values : List Nat} {i j v w : Nat} (hij : i ≤ j)
    (hv : (ranked values)[i]? = some v) (hw : (ranked values)[j]? = some w) : v ≤ w := by
  obtain ⟨hi, rfl⟩ := List.getElem?_eq_some_iff.mp hv
  obtain ⟨hj, rfl⟩ := List.getElem?_eq_some_iff.mp hw
  rcases Nat.lt_or_eq_of_le hij with hlt | rfl
  · exact List.pairwise_iff_getElem.mp (ranked_ascending values) i j hi hj hlt
  · exact Nat.le_refl _

theorem min?_concat (values : List Nat) (v : Nat) :
    (values ++ [v]).min? = some (values.min?.elim v (min · v)) := by
  cases values with
  | nil => rfl
  | cons first rest =>
    rw [List.cons_append, List.min?_cons', List.min?_cons', List.foldl_append]
    rfl

theorem max?_concat (values : List Nat) (v : Nat) :
    (values ++ [v]).max? = some (max (values.max?.getD 0) v) := by
  cases values with
  | nil => simp
  | cons first rest =>
    rw [List.cons_append, List.max?_cons', List.max?_cons', List.foldl_append]
    rfl

theorem ascending_keys {key : Nat → Nat} {values keys : List Nat}
    (hmono : ∀ v ∈ values, ∀ w ∈ values, v ≤ w → key v ≤ key w)
    (hkeys : keys.Pairwise (· ≤ ·)) (hperm : keys.Perm (values.map key)) :
    keys = (ranked values).map key := by
  refine ascending_unique hkeys ?_ (hperm.trans ((ranked_perm values).map key).symm)
  refine List.pairwise_map.mpr ((ranked_ascending values).imp_of_mem ?_)
  intro v w hv hw hvw
  exact hmono v (mem_ranked.mp hv) w (mem_ranked.mp hw) hvw

end QuantileMonitor.Quantile
