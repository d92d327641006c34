/-! A bounded queue that never waits: what does not fit is refused. -/

namespace QuantileMonitor.Ingest

structure Queue (α : Type) where
  capacity : Nat
  front : List α
  back : List α
  size : Nat
  closed : Bool
  size_eq : size = front.length + back.length

inductive Offered
  | accepted
  | full
  | closed
deriving DecidableEq

namespace Queue

variable {α : Type}

def empty (capacity : Nat) : Queue α := ⟨capacity, [], [], 0, false, rfl⟩

def toList (q : Queue α) : List α := q.front ++ q.back.reverse

def offer (q : Queue α) (a : α) : Offered × Queue α :=
  if q.closed then (.closed, q)
  else if q.capacity ≤ q.size then (.full, q)
  else
    (.accepted,
      { q with
        back := a :: q.back
        size := q.size + 1
        size_eq := by simp only [q.size_eq, List.length_cons]; omega })

def take? (q : Queue α) : Option (α × Queue α) :=
  match hf : q.front with
  | a :: rest =>
    some (a, { q with
      front := rest
      size := q.size - 1
      size_eq := by simp only [q.size_eq, hf, List.length_cons]; omega })
  | [] =>
    match hb : q.back.reverse with
    | [] => none
    | a :: rest =>
      some (a, { q with
        front := rest
        back := []
        size := q.size - 1
        size_eq := by
          have h := congrArg List.length hb
          simp only [List.length_reverse, List.length_cons] at h
          simp only [q.size_eq, hf, h, List.length_nil]
          omega })

def close (q : Queue α) : Queue α := { q with closed := true }

def discard (q : Queue α) : Queue α := ⟨q.capacity, [], [], 0, true, rfl⟩

theorem size_eq_length (q : Queue α) : q.size = q.toList.length := by
  simp [toList, q.size_eq]

end Queue

end QuantileMonitor.Ingest
