import Mathlib.Data.List.Forall2
import Mathlib.Data.List.Induction
import QuantileMonitor.Proofs.Device.SyscallTable
import QuantileMonitor.Proofs.Outcome

/-!
# Lists of syscalls

A list is refused for its first item that is neither blank nor denotes a number. Otherwise it yields the
numbers that its items denote and no others, each once and at the place of its first item. Written out
again, by name or in decimal, the numbers yield themselves.
-/

namespace QuantileMonitor.Device.Syscall

open Text

def bare (item : String) : String := String.ofList (Text.trim item.toList)

def Listed (items : List String) (n : UInt32) : Prop := ∃ item ∈ items, denoted? (bare item) = some n

variable {items written : List String} {seen found : List UInt32} {n m : UInt32} {item : String}

theorem denoted?_of_blank {item : String} (h : Text.trim item.toList = []) :
    denoted? (bare item) = none := by
  rw [bare, h]
  decide

theorem isEmpty_bare_iff (item : String) :
    (bare item).isEmpty = true ↔ Text.trim item.toList = [] := by
  rw [bare, String.isEmpty_iff]
  exact String.ofList_eq_empty_iff

def refused (item : String) : Bool := !(bare item).isEmpty && (denoted? (bare item)).isNone

def numbers (items : List String) : List UInt32 := items.filterMap fun item => denoted? (bare item)

theorem numbers_cons_none (h : denoted? (bare item) = none) (items : List String) :
    numbers (item :: items) = numbers items := List.filterMap_cons_none h

theorem numbers_cons_some (h : denoted? (bare item) = some n) (items : List String) :
    numbers (item :: items) = n :: numbers items := List.filterMap_cons_some h

def fresh (seen rest : List UInt32) : List UInt32 := (rest.filter fun n => !seen.contains n).eraseDups

theorem fresh_cons_of_mem (h : n ∈ seen) (rest : List UInt32) : fresh seen (n :: rest) = fresh seen rest := by
  rw [fresh, List.filter_cons_of_neg (by simpa using h), fresh]

theorem fresh_cons_of_not_mem (h : n ∉ seen) (rest : List UInt32) :
    fresh seen (n :: rest) = n :: fresh (n :: seen) rest := by
  rw [fresh, List.filter_cons_of_pos (by simpa using h), List.eraseDups_cons, List.filter_filter, fresh]
  simp only [List.contains_cons, Bool.not_or]

theorem go_cons_blank (h : (bare item).isEmpty = true) :
    ofItems.go (item :: items) seen = ofItems.go items seen := if_pos h

theorem go_cons_unknown (hfull : (bare item).isEmpty = false) (h : denoted? (bare item) = none) :
    ofItems.go (item :: items) seen = .error ⟨bare item⟩ := by
  rw [bare] at hfull h
  simp only [ofItems.go, hfull, h, bare]
  rfl

theorem go_cons_denoted (hfull : (bare item).isEmpty = false) (h : denoted? (bare item) = some n) :
    ofItems.go (item :: items) seen = ofItems.go items (if seen.contains n then seen else n :: seen) := by
  rw [bare] at hfull h
  simp only [ofItems.go, hfull, h]
  rfl

theorem go_eq (items : List String) (seen : List UInt32) :
    ofItems.go items seen =
      match items.find? refused with
      | some item => .error ⟨bare item⟩
      | none => .ok (seen.reverse ++ fresh seen (numbers items)) := by
  induction items generalizing seen with
  | nil => simp [ofItems.go, fresh, numbers]
  | cons item items ih =>
    rw [List.find?_cons, refused]
    cases hempty : (bare item).isEmpty with
    | true =>
      have hnone := denoted?_of_blank ((isEmpty_bare_iff item).mp hempty)
      rw [go_cons_blank hempty, ih, numbers_cons_none hnone]
      rfl
    | false =>
      cases hdenoted : denoted? (bare item) with
      | none =>
        rw [go_cons_unknown hempty hdenoted]
        rfl
      | some n =>
        rw [go_cons_denoted hempty hdenoted, ih, numbers_cons_some hdenoted, Option.isNone_some, Bool.and_false]
        by_cases hseen : n ∈ seen
        · rw [if_pos (by simpa using hseen), fresh_cons_of_mem hseen]
        · rw [if_neg (by simpa using hseen), fresh_cons_of_not_mem hseen, List.reverse_cons,
            List.append_assoc, List.singleton_append]

theorem ofItems_eq (items : List String) :
    ofItems items =
      match items.find? refused with
      | some item => .error ⟨bare item⟩
      | none => .ok (numbers items).eraseDups := by
  have hall : fresh [] (numbers items) = (numbers items).eraseDups := by
    rw [fresh, List.filter_eq_self.mpr (by simp)]
  rw [ofItems, go_eq, hall]
  rfl

theorem mem_numbers : n ∈ numbers items ↔ Listed items n := List.mem_filterMap

theorem ofItems_eq_ok (h : ofItems items = .ok found) :
    items.find? refused = none ∧ found = (numbers items).eraseDups := by
  rw [ofItems_eq] at h
  split at h
  next => cases h
  next hnone =>
    cases h
    exact ⟨hnone, rfl⟩

theorem mem_ofItems (h : ofItems items = .ok found) (n : UInt32) : n ∈ found ↔ Listed items n := by
  rw [(ofItems_eq_ok h).2, List.mem_eraseDups, mem_numbers]

theorem ofItems_ne_nil_iff (h : ofItems items = .ok found) :
    found ≠ [] ↔ ∃ item ∈ items, Text.trim item.toList ≠ [] := by
  constructor
  · intro hne
    obtain ⟨n, hn⟩ := List.exists_mem_of_ne_nil found hne
    obtain ⟨item, hitem, hdenoted⟩ := (mem_ofItems h n).mp hn
    refine ⟨item, hitem, fun hblank => ?_⟩
    rw [denoted?_of_blank hblank] at hdenoted
    cases hdenoted
  · rintro ⟨item, hitem, hne⟩
    have hkept := List.find?_eq_none.mp (ofItems_eq_ok h).1 item hitem
    have hfull : (bare item).isEmpty = false := by
      rwa [← Bool.not_eq_true, isEmpty_bare_iff]
    cases hn : denoted? (bare item) with
    | none => simp [refused, hfull, hn] at hkept
    | some n => exact List.ne_nil_of_mem ((mem_ofItems h n).mpr ⟨item, hitem, hn⟩)

def Legible (item : String) : Prop := Blank item.toList ∨ ∃ n, ReadsAs (bare item) n

theorem refused_eq_false_iff (item : String) : refused item = false ↔ Legible item := by
  have hblank : (bare item).isEmpty = true ↔ Blank item.toList := by
    rw [isEmpty_bare_iff, trim_eq_nil_iff, Blank]
  rw [refused, Legible, ← hblank, Bool.and_eq_false_iff, Bool.not_eq_false', Option.isNone_eq_false_iff,
    Option.isSome_iff_exists]
  simp only [denoted?_eq_some_iff]

theorem refused_iff (item : String) : refused item = true ↔ ¬Legible item := by
  rw [← refused_eq_false_iff, Bool.not_eq_false]

theorem find?_refused_eq_none_iff : items.find? refused = none ↔ ∀ item ∈ items, Legible item := by
  simp only [List.find?_eq_none, Bool.not_eq_true, refused_eq_false_iff]

theorem exists_ofItems_iff : (∃ found, ofItems items = .ok found) ↔ ∀ item ∈ items, Legible item := by
  rw [← find?_refused_eq_none_iff]
  constructor
  · rintro ⟨found, h⟩
    exact (ofItems_eq_ok h).1
  · intro hnone
    exact ⟨(numbers items).eraseDups, by rw [ofItems_eq, hnone]⟩

theorem ofItems_eq_error_iff (e : UnknownSyscall) :
    ofItems items = .error e ↔ ∃ before item after, items = before ++ item :: after ∧
      (∀ earlier ∈ before, Legible earlier) ∧ ¬Legible item ∧ e = ⟨bare item⟩ := by
  have herror : ofItems items = .error e ↔ ∃ item, items.find? refused = some item ∧ e = ⟨bare item⟩ := by
    rw [ofItems_eq]
    cases items.find? refused with
    | none => simp
    | some item => simp [eq_comm]
  rw [herror]
  simp only [List.find?_eq_some_iff_append, Bool.not_eq_true', refused_iff, refused_eq_false_iff]
  constructor
  · rintro ⟨item, ⟨hitem, before, after, hitems, hbefore⟩, he⟩
    exact ⟨before, item, after, hitems, hbefore, hitem, he⟩
  · rintro ⟨before, item, after, hitems, hbefore, hitem, he⟩
    exact ⟨item, ⟨hitem, before, after, hitems, hbefore⟩, he⟩

/-- An item that denotes the one number stands before all that denote the other. -/
def Before (items : List String) (n m : UInt32) : Prop :=
  ∃ front back, items = front ++ back ∧ (∃ item ∈ front, ReadsAs (bare item) n) ∧
    ∀ item ∈ front, ¬ReadsAs (bare item) m

theorem Before.append (h : Before items n m) (more : List String) : Before (items ++ more) n m := by
  obtain ⟨front, back, rfl, hn, hm⟩ := h
  exact ⟨front, back ++ more, List.append_assoc _ _ _, hn, hm⟩

theorem Before.ne (h : Before items n m) : n ≠ m := by
  obtain ⟨front, back, -, ⟨item, hitem, hn⟩, hm⟩ := h
  rintro rfl
  exact hm item hitem hn

theorem mem_numbers_iff : n ∈ numbers items ↔ ∃ item ∈ items, ReadsAs (bare item) n := by
  simp only [mem_numbers, Listed, denoted?_eq_some_iff]

theorem before_of_mem (h : n ∈ numbers items) (h' : m ∉ numbers items) (more : List String) :
    Before (items ++ more) n m := by
  rw [mem_numbers_iff] at h h'
  exact ⟨items, more, rfl, h, fun item hitem hm => h' ⟨item, hitem, hm⟩⟩

theorem eraseDups_numbers_ordered (items : List String) :
    (numbers items).eraseDups.Pairwise (Before items) := by
  induction items using List.reverseRecOn with
  | nil => exact List.Pairwise.nil
  | append_singleton items item ih =>
    have hfirst := ih.imp fun h => h.append [item]
    rw [numbers, List.filterMap_append, ← numbers, ← numbers, List.eraseDups_append]
    refine List.pairwise_append.mpr ⟨hfirst, ?_, fun n hn m hm => ?_⟩
    · cases hdenoted : denoted? (bare item) with
      | none => simp [numbers, List.removeAll, hdenoted]
      | some n =>
        have hone : numbers [item] = [n] := numbers_cons_some hdenoted []
        by_cases hn : n ∈ numbers items <;> simp [hone, List.removeAll, List.eraseDups_cons, hn]
    · rw [List.mem_eraseDups] at hn hm
      have hnew : m ∉ numbers items := by simpa [List.removeAll] using (List.mem_filter.mp hm).2
      exact before_of_mem hn hnew [item]

theorem bare_of_readsAs (h : ReadsAs item n) : bare item = item := by
  rw [bare, h.solid.trim_eq, String.ofList_toList]

theorem denoted?_of_writes (h : Writes n item) : denoted? (bare item) = some n := by
  rw [bare_of_readsAs h.readsAs]
  exact denoted?_eq_some_iff.mpr h.readsAs

theorem legible_of_writes (h : List.Forall₂ Writes found written) : ∀ item ∈ written, Legible item := by
  induction h with
  | nil => exact List.forall_mem_nil _
  | cons hwrites _ ih =>
    have hreads := denoted?_eq_some_iff.mp (denoted?_of_writes hwrites)
    exact List.forall_mem_cons.mpr ⟨.inr ⟨_, hreads⟩, ih⟩

theorem numbers_of_writes (h : List.Forall₂ Writes found written) : numbers written = found := by
  induction h with
  | nil => rfl
  | cons hwrites _ ih => rw [numbers_cons_some (denoted?_of_writes hwrites), ih]

theorem eraseDups_of_nodup (h : found.Nodup) : found.eraseDups = found := by
  induction found with
  | nil => rfl
  | cons n found ih =>
    obtain ⟨hn, hfound⟩ := List.nodup_cons.mp h
    have hothers : found.filter (fun m => !m == n) = found := by
      refine List.filter_eq_self.mpr fun m hm => ?_
      simpa using ne_of_mem_of_not_mem hm hn
    rw [List.eraseDups_cons, hothers, ih hfound]

theorem ofItems_of_writes (hnodup : found.Nodup) (h : List.Forall₂ Writes found written) :
    ofItems written = .ok found := by
  rw [ofItems_eq, find?_refused_eq_none_iff.mpr (legible_of_writes h), numbers_of_writes h,
    eraseDups_of_nodup hnodup]

/-- A list is accepted if and only if each item is blank, a name or a numeral, and refused for the first that
is neither. What it yields are the numbers of its items, each once and in the order of their first items.
They yield themselves however they are written out. -/
theorem ofItems_keeps_first (items : List String) :
    ((∃ found, ofItems items = .ok found) ↔ ∀ item ∈ items, Legible item) ∧
    (∀ e, ofItems items = .error e ↔ ∃ before item after, items = before ++ item :: after ∧
      (∀ earlier ∈ before, Legible earlier) ∧ ¬Legible item ∧ e = ⟨bare item⟩) ∧
    ∀ found, ofItems items = .ok found →
      found.Nodup ∧ (∀ n, n ∈ found ↔ ∃ item ∈ items, ReadsAs (bare item) n) ∧
      found.Pairwise (Before items) ∧
      ∀ written, List.Forall₂ Writes found written → ofItems written = .ok found := by
  refine ⟨exists_ofItems_iff, ofItems_eq_error_iff, fun found h => ?_⟩
  obtain ⟨-, rfl⟩ := ofItems_eq_ok h
  have hordered := eraseDups_numbers_ordered items
  have hnodup : (numbers items).eraseDups.Nodup := hordered.imp Before.ne
  refine ⟨hnodup, fun n => ?_, hordered, fun written => ofItems_of_writes hnodup⟩
  rw [List.mem_eraseDups, mem_numbers_iff]

theorem ofItems_keeps_first_mixed :
    ∃ found, ofItems [" fsync ", "", "+0074", "1", "write", "4242"] = .ok found ∧ found = [74, 1, 4242] ∧
      List.Forall₂ Writes found ["74", "write", "4242"] ∧
      ofItems ["74", "write", "4242"] = .ok found := by
  have hfound : ofItems [" fsync ", "", "+0074", "1", "write", "4242"] = .ok [74, 1, 4242] := by
    apply eq_ok_of_toOption
    decide +kernel
  have hwritten : List.Forall₂ Writes [74, 1, 4242] ["74", "write", "4242"] :=
    .cons (.inl (by decide +kernel)) (.cons (.inr (by decide +kernel)) (.cons (.inl (by decide +kernel)) .nil))
  obtain ⟨-, -, hkeeps⟩ := ofItems_keeps_first [" fsync ", "", "+0074", "1", "write", "4242"]
  obtain ⟨-, -, -, hwrites⟩ := hkeeps _ hfound
  exact ⟨_, hfound, rfl, hwritten, hwrites _ hwritten⟩

end QuantileMonitor.Device.Syscall
