/-! The five largest values. -/

namespace QuantileMonitor.Window

def Top.size : Nat := 5

/-- The places in use come first and ascend. What the others hold is left over from earlier. -/
structure Top where
  places : Vector Nat Top.size
  used : Nat
  used_le : used ≤ Top.size
deriving DecidableEq

namespace Top

def empty : Top := ⟨Vector.replicate size 0, 0, Nat.zero_le size⟩

def values (t : Top) : List Nat := t.places.toList.take t.used

def sortFirst (n : Nat) (l : List Nat) : List Nat := (l.take n).mergeSort (· ≤ ·) ++ l.drop n

theorem length_sortFirst (n : Nat) (l : List Nat) : (sortFirst n l).length = l.length := by
  rw [sortFirst, List.length_append, List.length_mergeSort, ← List.length_append,
    List.take_append_drop]

def arrange (n : Nat) (places : Vector Nat size) : Vector Nat size :=
  ⟨(sortFirst n places.toList).toArray, by
    rw [List.size_toArray, length_sortFirst, Vector.length_toList]⟩

def record (t : Top) (v : Nat) : Top :=
  if h : t.used < size then
    ⟨arrange (t.used + 1) (t.places.set t.used v), t.used + 1, h⟩
  else if v ≤ t.places[0] then t
  else { t with places := arrange size (t.places.set 0 v) }

def clear (t : Top) : Top := { t with used := 0, used_le := Nat.zero_le size }

end Top

end QuantileMonitor.Window
