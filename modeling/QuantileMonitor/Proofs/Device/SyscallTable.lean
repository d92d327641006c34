import Mathlib.Data.List.Nodup
import QuantileMonitor.Device.Syscall
import QuantileMonitor.Proofs.Text.Numeral

/-!
# The table of syscalls

No two syscalls of the table share a name or a number, and no name reads as a numeral. So names and numbers
are looked up by the same entries, and an item denotes a number through its entry or as a numeral for it,
never both ways.
-/

namespace QuantileMonitor.Device.Syscall

open Text

theorem find?_map_eq_some_iff {α β δ : Type} [BEq β] [LawfulBEq β] {l : List α} {key : α → β} {value : α → δ}
    (h : (l.map key).Nodup) {k : β} {v : δ} :
    (l.find? (key · == k)).map value = some v ↔ ∃ a ∈ l, key a = k ∧ value a = v := by
  rw [Option.map_eq_some_iff]
  constructor
  · rintro ⟨a, hfind, hvalue⟩
    exact ⟨a, List.mem_of_find?_eq_some hfind, by simpa using List.find?_some hfind, hvalue⟩
  · rintro ⟨a, hmem, rfl, hvalue⟩
    have hsome : (l.find? (key · == key a)).isSome := List.find?_isSome.mpr ⟨a, hmem, by simp⟩
    obtain ⟨b, hb⟩ := Option.isSome_iff_exists.mp hsome
    have hkey : key b = key a := by simpa using List.find?_some hb
    obtain rfl := List.inj_on_of_nodup_map h (List.mem_of_find?_eq_some hb) hmem hkey
    exact ⟨b, hb, hvalue⟩

theorem names_nodup : (table.map (·.1)).Nodup := by decide +kernel

theorem numbers_nodup : (table.map (·.2)).Nodup := by decide +kernel

theorem plain_of_mem_table :
    ∀ entry ∈ table, Solid entry.1.toList ∧ unsigned? Word.halfBound entry.1.toList = none := by
  decide +kernel

variable {item name : String} {n m : UInt32}

theorem number?_eq_some_iff : number? name = some n ↔ (name, n) ∈ table := by
  rw [number?, find?_map_eq_some_iff names_nodup]
  simp

theorem name?_eq_some_iff : name? n = some name ↔ (name, n) ∈ table := by
  rw [name?, find?_map_eq_some_iff numbers_nodup]
  simp

/-- The item is a name of the table, or a numeral. -/
def ReadsAs (item : String) (n : UInt32) : Prop := (item, n) ∈ table ∨ Numeral item.toList n.toNat

theorem not_numeral_of_mem_table (h : (name, n) ∈ table) (m : UInt32) : ¬Numeral name.toList m.toNat := by
  intro hnumeral
  have hnone : unsigned? Word.halfBound name.toList = none := (plain_of_mem_table _ h).2
  have hsome : unsigned? Word.halfBound name.toList = some m.toNat :=
    unsigned?_eq_some_iff.mpr ⟨hnumeral, m.toNat_lt⟩
  rw [hnone] at hsome
  cases hsome

theorem unsigned?_eq_some_toNat_iff :
    (unsigned? Word.halfBound item.toList).map Nat.toUInt32 = some n ↔ Numeral item.toList n.toNat := by
  rw [Option.map_eq_some_iff]
  constructor
  · rintro ⟨k, hk, rfl⟩
    obtain ⟨hnumeral, hlt⟩ := unsigned?_eq_some_iff.mp hk
    rwa [UInt32.toNat_ofNat_of_lt' hlt]
  · intro hnumeral
    exact ⟨n.toNat, unsigned?_eq_some_iff.mpr ⟨hnumeral, n.toNat_lt⟩, by simp⟩

theorem denoted?_eq_some_iff : denoted? item = some n ↔ ReadsAs item n := by
  rw [denoted?, ReadsAs]
  cases hname : number? item with
  | some m =>
    have hmem := number?_eq_some_iff.mp hname
    rw [Option.some_or, ← hname, number?_eq_some_iff]
    simp [not_numeral_of_mem_table hmem n]
  | none =>
    have hmem : (item, n) ∉ table := by simp [← number?_eq_some_iff, hname]
    rw [Option.none_or, unsigned?_eq_some_toNat_iff]
    simp [hmem]

def Writes (n : UInt32) (item : String) : Prop := item = toString n.toNat ∨ name? n = some item

theorem Writes.readsAs (h : Writes n item) : ReadsAs item n := by
  obtain rfl | hname := h
  · refine .inr ?_
    rw [Nat.toString_eq_repr, Nat.toList_repr]
    exact numeral_toDigits n.toNat
  · exact .inl (name?_eq_some_iff.mp hname)

theorem ReadsAs.solid (h : ReadsAs item n) : Solid item.toList := by
  obtain hmem | hnumeral := h
  · exact (plain_of_mem_table _ hmem).1
  · exact hnumeral.solid

end QuantileMonitor.Device.Syscall
