import QuantileMonitor.Proofs.Quantile.Ranked
import QuantileMonitor.Window.Top

/-!
# The largest values

The places in use hold the largest of the values recorded since the last clearing. What the other
places hold is written over before it is read, so a cleared list goes on like a new one.
-/

namespace QuantileMonitor.Window

open Quantile (ranked ranked_eq ranked_perm ranked_ascending ranked_getElem?_last length_ranked)

/-- So many of the largest values in ascending order, all values if there are not more. -/
def largest (n : Nat) (values : List Nat) : List Nat := (ranked values).drop (values.length - n)

variable {n v : Nat} {values : List Nat}

theorem length_largest (n : Nat) (values : List Nat) :
    (largest n values).length = min n values.length := by
  rw [largest, List.length_drop, length_ranked]
  omega

theorem largest_nil (n : Nat) : largest n [] = [] :=
  List.eq_nil_of_length_eq_zero ((length_largest n []).trans (Nat.min_zero n))

theorem largest_ascending (n : Nat) (values : List Nat) : (largest n values).Pairwise (· ≤ ·) :=
  (ranked_ascending values).drop

theorem largest_of_length_le (h : values.length ≤ n) : largest n values = ranked values := by
  rw [largest, Nat.sub_eq_zero_of_le h, List.drop_zero]

theorem getLast?_largest (hn : n ≠ 0) (values : List Nat) :
    (largest n values).getLast? = values.max? := by
  have hlength := length_ranked values
  rw [largest, List.getLast?_drop, hlength, ← ranked_getElem?_last, List.getLast?_eq_getElem?, hlength]
  split
  next hnil => rw [List.getElem?_eq_none (by omega)]
  next => rfl

theorem exists_lower (n : Nat) (values : List Nat) :
    ∃ lower, lower.length = values.length - n ∧ ranked values = lower ++ largest n values ∧
      ∀ a ∈ lower, ∀ b ∈ largest n values, a ≤ b := by
  refine ⟨(ranked values).take (values.length - n), ?_, (List.take_append_drop _ _).symm, ?_⟩
  · rw [List.length_take, length_ranked]
    omega
  · have hsorted := ranked_ascending values
    rw [← List.take_append_drop (values.length - n) (ranked values)] at hsorted
    exact (List.pairwise_append.mp hsorted).2.2

theorem largest_concat_of_room (h : values.length < n) :
    largest n (values ++ [v]) = ranked (largest n values ++ [v]) := by
  have hone : (values ++ [v]).length ≤ n := by
    rw [List.length_append]
    exact h
  rw [largest_of_length_le hone, largest_of_length_le (Nat.le_of_lt h)]
  refine ranked_eq (ranked_ascending _) ((ranked_perm _).trans ?_)
  exact (ranked_perm values).append_right [v]

theorem largest_concat_of_split (h : n ≤ values.length) (lower : List Nat) {upper : List Nat}
    (hlength : upper.length = n) (hperm : (lower ++ upper).Perm (values ++ [v]))
    (hupper : upper.Pairwise (· ≤ ·)) (hborder : ∀ a ∈ lower, ∀ b ∈ upper, a ≤ b) :
    largest n (values ++ [v]) = upper := by
  have hranked : ranked (values ++ [v]) = ranked lower ++ upper := by
    refine ranked_eq (List.pairwise_append.mpr ⟨ranked_ascending lower, hupper, ?_⟩) ?_
    · exact fun a ha => hborder a ((ranked_perm lower).mem_iff.mp ha)
    · exact ((ranked_perm lower).append_right upper).trans hperm
  have hcount := hperm.length_eq
  rw [List.length_append, hlength, List.length_append] at hcount
  rw [largest, hranked, List.drop_left']
  rw [length_ranked, List.length_append]
  omega

theorem largest_concat_of_le (h : n ≤ values.length) (hv : ∀ b ∈ largest n values, v ≤ b) :
    largest n (values ++ [v]) = largest n values := by
  obtain ⟨lower, -, hsplit, hborder⟩ := exists_lower n values
  refine largest_concat_of_split h (lower ++ [v]) ?_ ?_ (largest_ascending n values) ?_
  · rw [length_largest, Nat.min_eq_left h]
  · rw [List.append_assoc]
    refine (List.perm_append_comm.append_left lower).trans ?_
    rw [← List.append_assoc, ← hsplit]
    exact (ranked_perm values).append_right [v]
  · intro a ha b hb
    rcases List.mem_append.mp ha with hold | hnew
    · exact hborder a hold b hb
    · rw [List.mem_singleton.mp hnew]
      exact hv b hb

theorem largest_concat_of_lt (h : n ≤ values.length) {w : Nat} {rest : List Nat}
    (hcons : largest n values = w :: rest) (hv : w < v) :
    largest n (values ++ [v]) = ranked (v :: rest) := by
  obtain ⟨lower, -, hsplit, hborder⟩ := exists_lower n values
  have hlength := length_largest n values
  have hsorted := largest_ascending n values
  rw [hcons] at hsplit hborder hlength hsorted
  have hleast := (List.pairwise_cons.mp hsorted).1
  refine largest_concat_of_split h (lower ++ [w]) ?_ ?_ (ranked_ascending _) ?_
  · rw [length_ranked, List.length_cons, ← List.length_cons, hlength, Nat.min_eq_left h]
  · refine ((ranked_perm (v :: rest)).append_left _).trans ?_
    have hlast := (List.perm_append_singleton v rest).symm.cons w
    rw [List.append_assoc, List.singleton_append]
    refine (hlast.append_left lower).trans ?_
    rw [← List.cons_append, ← List.append_assoc, ← hsplit]
    exact (ranked_perm values).append_right [v]
  · intro a ha b hb
    have haw : a ≤ w := by
      rcases List.mem_append.mp ha with hold | hnew
      · exact hborder a hold w List.mem_cons_self
      · exact Nat.le_of_eq (List.mem_singleton.mp hnew)
    have hwb : w ≤ b := by
      rcases List.mem_cons.mp ((ranked_perm _).mem_iff.mp hb) with rfl | hb
      · exact Nat.le_of_lt hv
      · exact hleast b hb
    exact Nat.le_trans haw hwb

namespace Top

variable {t : Top}

theorem length_values (t : Top) : t.values.length = t.used := by
  rw [Top.values, List.length_take, Vector.length_toList]
  exact Nat.min_eq_left t.used_le

theorem values_empty : empty.values = largest size [] := (largest_nil size).symm

theorem values_clear (t : Top) : t.clear.values = largest size [] := (largest_nil size).symm

theorem take_sortFirst {m : Nat} {l : List Nat} (h : m ≤ l.length) :
    (sortFirst m l).take m = ranked (l.take m) := by
  refine List.take_left' ?_
  rw [List.length_mergeSort, List.length_take, Nat.min_eq_left h]

theorem values_arrange (places : Vector Nat size) {m : Nat} (hm : m ≤ size) :
    Top.values ⟨arrange m places, m, hm⟩ = ranked (places.toList.take m) :=
  take_sortFirst (by rwa [Vector.length_toList])

theorem values_record_of_room (h : t.used < size) :
    (t.record v).values = ranked (t.values ++ [v]) := by
  have hlength : (t.places.toList.take t.used).length = t.used := length_values t
  have hset : (t.places.set t.used v).toList.take (t.used + 1) = t.values ++ [v] := by
    rw [Vector.toList_set, List.set_eq_take_append_cons_drop, if_pos (by simpa using h),
      ← List.singleton_append, ← List.append_assoc]
    exact List.take_left' (by rw [List.length_append, hlength, List.length_singleton])
  rw [record, dif_pos h, values_arrange, hset]

theorem values_record_of_full (h : ¬t.used < size) :
    ∃ w rest, t.values = w :: rest ∧
      (t.record v).values = if v ≤ w then w :: rest else ranked (v :: rest) := by
  have hused : t.used = size := Nat.le_antisymm t.used_le (Nat.le_of_not_lt h)
  have hlength : t.places.toList.length = size := Vector.length_toList
  have hvalues : t.values = t.places.toList := by
    rw [Top.values, hused]
    exact List.take_of_length_le (Nat.le_of_eq hlength)
  cases hplaces : t.places.toList with
  | nil =>
    rw [hplaces] at hlength
    cases hlength
  | cons w rest =>
    have hfirst : t.places[0] = w := by
      have hget : t.places.toList[0]? = some w := by rw [hplaces, List.getElem?_cons_zero]
      rw [Vector.getElem?_toList, Vector.getElem?_eq_getElem (by decide)] at hget
      exact Option.some.inj hget
    refine ⟨w, rest, hvalues.trans hplaces, ?_⟩
    rw [record, dif_neg h, hfirst]
    by_cases hv : v ≤ w
    · rw [if_pos hv, if_pos hv, hvalues, hplaces]
    · have hset : (t.places.set 0 v).toList.take size = v :: rest := by
        rw [Vector.toList_set, hplaces, List.set_cons_zero, List.take_of_length_le]
        exact Nat.le_of_eq ((congrArg List.length hplaces).symm.trans hlength)
      have hfit : size ≤ (t.places.set 0 v).toList.length := Nat.le_of_eq Vector.length_toList.symm
      rw [if_neg hv, if_neg hv, Top.values]
      dsimp only
      rw [hused, ← hset]
      exact take_sortFirst hfit

theorem values_record (h : t.values = largest size values) (v : Nat) :
    (t.record v).values = largest size (values ++ [v]) := by
  have hlength := length_largest size values
  rw [← h, length_values] at hlength
  by_cases hroom : t.used < size
  · have hvalues : values.length < size := by omega
    rw [values_record_of_room hroom, h, largest_concat_of_room hvalues]
  · have hvalues : size ≤ values.length := by omega
    obtain ⟨w, rest, hcons, hrecord⟩ := values_record_of_full (v := v) hroom
    have hlargest : largest size values = w :: rest := h.symm.trans hcons
    have hsorted := largest_ascending size values
    rw [hlargest] at hsorted
    rw [hrecord]
    by_cases hv : v ≤ w
    · rw [if_pos hv, ← hlargest]
      refine (largest_concat_of_le hvalues fun b hb => ?_).symm
      rw [hlargest] at hb
      rcases List.mem_cons.mp hb with rfl | hb
      · exact hv
      · exact Nat.le_trans hv ((List.pairwise_cons.mp hsorted).1 b hb)
    · rw [if_neg hv, largest_concat_of_lt hvalues hlargest (Nat.lt_of_not_le hv)]

end Top

end QuantileMonitor.Window
