import QuantileMonitor.Ingest.Queue

/-!
# The queue as a list

An accepted element goes to the end of the list and the one taken comes from its front. A closed
queue takes nothing in and a full one takes nothing in until there is room.
-/

namespace QuantileMonitor.Ingest.Queue

variable {α : Type}

theorem offer_of_closed {q : Queue α} (h : q.closed = true) (a : α) :
    q.offer a = (.closed, q) := by
  rw [offer, if_pos h]

theorem offer_of_full {q : Queue α} (h : q.closed = false) (hs : q.capacity ≤ q.size) (a : α) :
    q.offer a = (.full, q) := by
  rw [offer, if_neg (by simp [h]), if_pos hs]

theorem offer_of_room {q : Queue α} (h : q.closed = false) (hs : q.size < q.capacity) (a : α) :
    ∃ q', q.offer a = (.accepted, q') ∧ q'.toList = q.toList ++ [a] ∧ q'.size = q.size + 1 ∧
      q'.closed = q.closed ∧ q'.capacity = q.capacity := by
  rw [offer, if_neg (by simp [h]), if_neg (by omega)]
  refine ⟨_, rfl, ?_, rfl, rfl, rfl⟩
  simp only [toList, List.reverse_cons, List.append_assoc]

theorem take?_eq_none {q : Queue α} (h : q.take? = none) : q.toList = [] := by
  unfold take? at h
  split at h
  · cases h
  · rename_i hfront
    split at h
    · rename_i hback
      simp [toList, hfront, hback]
    · cases h

theorem take?_eq_some {q q' : Queue α} {a : α} (h : q.take? = some (a, q')) :
    q.toList = a :: q'.toList ∧ q.size = q'.size + 1 ∧ q'.closed = q.closed ∧
      q'.capacity = q.capacity := by
  have hlist : q.toList = a :: q'.toList ∧ q'.closed = q.closed ∧ q'.capacity = q.capacity := by
    unfold take? at h
    split at h
    · rename_i b rest hfront
      obtain ⟨rfl, rfl⟩ := Prod.mk.inj (Option.some.inj h)
      refine ⟨?_, rfl, rfl⟩
      simp only [toList, hfront, List.cons_append]
    · rename_i hfront
      split at h
      · cases h
      · rename_i b rest hback
        obtain ⟨rfl, rfl⟩ := Prod.mk.inj (Option.some.inj h)
        refine ⟨?_, rfl, rfl⟩
        simp only [toList, hfront, hback, List.nil_append, List.reverse_nil, List.append_nil]
  refine ⟨hlist.1, ?_, hlist.2⟩
  rw [size_eq_length, size_eq_length, hlist.1, List.length_cons]

end QuantileMonitor.Ingest.Queue
