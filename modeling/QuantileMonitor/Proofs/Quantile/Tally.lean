import QuantileMonitor.Proofs.Quantile.Bins
import QuantileMonitor.Proofs.Quantile.Line
import QuantileMonitor.Proofs.Quantile.Ranked
import QuantileMonitor.Quantile.Histogram

/-!
# What a histogram counts

A histogram stands for a list of values below its clamp: it has each of them as often in its bucket as
the list has it. Written out bucket by bucket it is that list in ascending order, which is what the
scan for a rank walks along.
-/

namespace QuantileMonitor.Quantile.Histogram

theorem min_lt (h : Histogram) (v : Nat) : min v h.maxValue < h.maxValue + 1 :=
  Nat.lt_succ_of_le (Nat.min_le_right _ _)

theorem bucket_eq_getElem (h : Histogram) (v : Nat) (hv : min v h.maxValue < h.maxValue + 1) :
    h.bucket v = h.buckets[min v h.maxValue] := rfl

theorem bucket_of_lt {h : Histogram} {v : Nat} (hv : v < h.maxValue + 1) :
    h.bucket v = h.buckets[v] := by
  have hmin : min v h.maxValue = v := Nat.min_eq_left (Nat.le_of_lt_succ hv)
  simp only [bucket_eq_getElem h v (h.min_lt v), hmin]

theorem bucket_min (h : Histogram) (v : Nat) : h.bucket (min v h.maxValue) = h.bucket v := by
  simp only [bucket_eq_getElem h _ (h.min_lt _), Nat.min_assoc, Nat.min_self]

@[simp] theorem maxValue_add (h : Histogram) (v n : Nat) : (h.add v n).maxValue = h.maxValue := rfl

@[simp] theorem maxValue_insert (h : Histogram) (v : Nat) : (h.insert v).maxValue = h.maxValue := rfl

@[simp] theorem maxValue_reset (h : Histogram) : h.reset.maxValue = h.maxValue := rfl

theorem bucket_add (h : Histogram) (v n w : Nat) :
    (h.add v n).bucket w =
      h.bucket w + if min v h.maxValue = min w h.maxValue then n else 0 := by
  have hw := h.min_lt w
  have hset : (h.add v n).bucket w =
      (h.buckets.set (min v h.maxValue) (h.bucket v + n) (h.min_lt v))[min w h.maxValue] := rfl
  rw [hset, Vector.getElem_set]
  split_ifs with hslot
  · simp only [bucket_eq_getElem h _ (h.min_lt _), hslot]
  · rfl

theorem bucket_empty (maxValue v : Nat) : (empty maxValue).bucket v = 0 :=
  Vector.getElem_replicate _

def entries (h : Histogram) : List (Nat × Nat) :=
  (List.finRange (h.maxValue + 1)).map fun i => (i.val, h.buckets.get i)

@[simp] theorem length_entries (h : Histogram) : h.entries.length = h.maxValue + 1 := by
  simp [entries]

theorem getElem_entries (h : Histogram) {i : Nat} (hi : i < h.entries.length)
    (hi' : i < h.maxValue + 1) : h.entries[i] = (i, h.buckets[i]) := by
  simp only [entries, List.getElem_map, List.getElem_finRange]
  rfl

theorem entries_ascending (h : Histogram) : h.entries.Pairwise fun a b => a.1 < b.1 := by
  refine List.pairwise_map.mpr ((List.pairwise_lt_finRange _).imp ?_)
  exact fun hij => hij

theorem mem_entries {h : Histogram} {v n : Nat} :
    (v, n) ∈ h.entries ↔ v < h.maxValue + 1 ∧ h.bucket v = n := by
  rw [entries, List.mem_map]
  constructor
  · rintro ⟨i, -, heq⟩
    obtain ⟨rfl, rfl⟩ := Prod.mk.inj heq
    exact ⟨i.isLt, bucket_of_lt i.isLt⟩
  · rintro ⟨hv, rfl⟩
    exact ⟨⟨v, hv⟩, List.mem_finRange _, by rw [bucket_of_lt hv]; rfl⟩

theorem map_snd_entries (h : Histogram) : h.entries.map (·.2) = h.buckets.toList := by
  refine List.ext_getElem (by simp) fun i hi _ => ?_
  rw [List.getElem_map, getElem_entries, Vector.getElem_toList]

theorem count_expand_entries (h : Histogram) (v : Nat) :
    (Bins.expand h.entries).count v = if v < h.maxValue + 1 then h.bucket v else 0 := by
  split_ifs with hv
  · exact Bins.count_expand_of_mem h.entries_ascending (mem_entries.mpr ⟨hv, rfl⟩)
  · exact Bins.count_expand_of_not_mem fun n hn => hv (mem_entries.mp hn).1

theorem walk_entries (h : Histogram) (rank : Nat) {i seen : Nat} (hi : i ≤ h.maxValue)
    (hseen : seen ≤ rank) :
    Bins.walk (h.entries.drop i) (rank - seen) = some (h.scan rank i seen) := by
  induction hn : h.maxValue - i generalizing i seen with
  | zero =>
    obtain rfl : i = h.maxValue := by omega
    have hend : h.entries.drop (h.maxValue + 1) = [] := by simp
    rw [List.drop_eq_getElem_cons (by simp), hend, getElem_entries h _ (Nat.lt_succ_self _),
      Bins.walk, scan, dif_pos (Nat.lt_succ_self _)]
    dsimp only
    split_ifs
    · rfl
    · rw [scan, dif_neg (Nat.lt_irrefl _)]
  | succ n ih =>
    have hnext : i + 1 ≤ h.maxValue := by omega
    rw [List.drop_eq_getElem_cons (by simp; omega), getElem_entries h _ (by omega)]
    rw [List.drop_eq_getElem_cons (by simp; omega), Bins.walk, scan, dif_pos (by omega)]
    dsimp only
    by_cases hrank : rank < seen + h.buckets[i]
    · rw [if_pos (by omega), if_pos hrank]
    · rw [if_neg (by omega), if_neg hrank, ← ih hnext (by omega) (by omega),
        List.drop_eq_getElem_cons (i := i + 1) (by simp; omega), Nat.sub_sub]

theorem merge_eq_foldl (h other : Histogram) :
    h.merge other = other.entries.foldl (fun h e => h.add e.1 e.2) h := by
  rw [merge, Fin.foldl_eq_finRange_foldl, entries, List.foldl_map]
  rfl

theorem maxValue_foldl_add (h : Histogram) (counts : List (Nat × Nat)) :
    (counts.foldl (fun h e => h.add e.1 e.2) h).maxValue = h.maxValue := by
  induction counts generalizing h with
  | nil => rfl
  | cons e counts ih => exact ih (h.add e.1 e.2)

@[simp] theorem maxValue_merge (h other : Histogram) : (h.merge other).maxValue = h.maxValue := by
  rw [merge_eq_foldl, maxValue_foldl_add]

structure Tallies (h : Histogram) (values : List Nat) : Prop where
  bounded : ∀ v ∈ values, v ≤ h.maxValue
  bucket : ∀ v, v ≤ h.maxValue → h.bucket v = values.count v
  count : h.count = values.length

namespace Tallies

variable {h other : Histogram} {values others : List Nat}

theorem perm (ht : Tallies h values) (hperm : values.Perm others) : Tallies h others where
  bounded v hv := ht.bounded v (hperm.mem_iff.mpr hv)
  bucket v hv := (ht.bucket v hv).trans (hperm.count_eq v)
  count := ht.count.trans hperm.length_eq

theorem of_empty (maxValue : Nat) : Tallies (Histogram.empty maxValue) [] where
  bounded _ hv := absurd hv List.not_mem_nil
  bucket _ _ := bucket_empty maxValue _
  count := rfl

theorem add (ht : Tallies h values) (v n : Nat) :
    Tallies (h.add v n) (values ++ List.replicate n (min v h.maxValue)) where
  bounded w hw := by
    rcases List.mem_append.mp hw with hold | hnew
    · exact ht.bounded w hold
    · rw [List.eq_of_mem_replicate hnew]
      exact Nat.min_le_right _ _
  bucket w hw := by
    have hmin : min w h.maxValue = w := Nat.min_eq_left hw
    rw [bucket_add, ht.bucket w hw, hmin, List.count_append, List.count_replicate]
    simp only [beq_iff_eq]
  count := by
    rw [List.length_append, List.length_replicate, ← ht.count]
    rfl

theorem insert (ht : Tallies h values) (v : Nat) :
    Tallies (h.insert v) (values ++ [min v h.maxValue]) := ht.add v 1

theorem foldl_add (ht : Tallies h values) (counts : List (Nat × Nat)) :
    Tallies (counts.foldl (fun h e => h.add e.1 e.2) h)
      (values ++ (Bins.expand counts).map (min · h.maxValue)) := by
  induction counts generalizing h values with
  | nil => simpa [Bins.expand] using ht
  | cons e counts ih =>
    have htail := ih (ht.add e.1 e.2)
    rw [Bins.expand_cons, List.map_append, List.map_replicate, ← List.append_assoc]
    exact htail

theorem ranked_eq (ht : Tallies h values) : ranked values = Bins.expand h.entries := by
  refine Quantile.ranked_eq (Bins.expand_ascending h.entries_ascending) ?_
  refine List.perm_iff_count.mpr fun v => ?_
  rw [count_expand_entries]
  split_ifs with hv
  · exact ht.bucket v (Nat.le_of_lt_succ hv)
  · refine (List.count_eq_zero.mpr fun hmem => ?_).symm
    exact hv (Nat.lt_succ_of_le (ht.bounded v hmem))

theorem merge (ht : Tallies h values) (ho : Tallies other others) :
    Tallies (h.merge other) (values ++ others.map (min · h.maxValue)) := by
  rw [merge_eq_foldl]
  refine (ht.foldl_add other.entries).perm ?_
  rw [← ho.ranked_eq]
  exact ((ranked_perm others).map _).append_left values

theorem sum_buckets (ht : Tallies h values) : h.buckets.toList.sum = values.length := by
  rw [← map_snd_entries, ← Bins.length_expand, ← ht.ranked_eq, length_ranked]

theorem bucket_eq (ht : Tallies h values) (v : Nat) :
    h.bucket v = values.count (min v h.maxValue) := by
  rw [← ht.bucket _ (Nat.min_le_right _ _), bucket_min]

theorem valueAtRank (ht : Tallies h values) {rank : Nat} (hrank : rank < values.length) :
    (ranked values)[rank]? = some (h.valueAtRank rank) := by
  rw [← length_ranked, ht.ranked_eq] at hrank
  rw [ht.ranked_eq, ← Bins.walk_eq hrank]
  exact walk_entries h rank (Nat.zero_le _) (Nat.zero_le rank)

theorem quantile (ht : Tallies h values) {q : Rat} (hq0 : 0 ≤ q) (hq1 : q ≤ 1) :
    h.quantile q = if values = [] then none
      else some (line (ranked values) (q * (values.length - 1 : Nat))) := by
  rw [Histogram.quantile]
  by_cases hnil : values = []
  · rw [if_pos (by rw [ht.count, hnil]; rfl), if_pos hnil]
  · have hlength := List.length_pos_of_ne_nil hnil
    have hcount : h.count ≠ 0 := by
      rw [ht.count]
      omega
    have hranked : ranked values ≠ [] := by
      apply List.ne_nil_of_length_pos
      rwa [length_ranked]
    rw [if_neg hcount, if_neg hnil, ht.count, ← length_ranked values]
    refine congrArg some (readAt_position (fun i x hx => ?_) hranked hq0 hq1)
    have hi : i < values.length := by
      rw [← length_ranked]
      exact (List.getElem?_eq_some_iff.mp hx).1
    exact Option.some.inj ((ht.valueAtRank hi).symm.trans hx)

theorem eq_iff_perm (ht : Tallies h values) (ho : Tallies other others)
    (hmax : h.maxValue = other.maxValue) : h = other ↔ values.Perm others := by
  constructor
  · rintro rfl
    have hranked : ranked values = ranked others := ht.ranked_eq.trans ho.ranked_eq.symm
    exact (ranked_perm values).symm.trans (hranked ▸ ranked_perm others)
  · intro hperm
    have hcount : h.count = other.count := by rw [ht.count, ho.count, hperm.length_eq]
    have hbucket : ∀ v, h.bucket v = other.bucket v := by
      intro v
      rw [ht.bucket_eq, ho.bucket_eq, hmax, hperm.count_eq]
    obtain ⟨maxValue, buckets, count⟩ := h
    obtain ⟨otherMax, otherBuckets, otherCount⟩ := other
    obtain rfl : maxValue = otherMax := hmax
    obtain rfl : count = otherCount := hcount
    congr 1
    refine Vector.ext fun i hi => ?_
    have hi' := hbucket i
    rwa [bucket_of_lt hi, bucket_of_lt hi] at hi'

end Tallies

end QuantileMonitor.Quantile.Histogram
