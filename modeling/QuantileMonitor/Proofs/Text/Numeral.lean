import QuantileMonitor.Proofs.Text.Fields
import QuantileMonitor.Text.Numeral

/-!
# Numerals

A text denotes a number below a bound if and only if it is a numeral, digits with or without a plus before
them, for a number that small. Decimal digits of a number are a numeral for it, and further digits after a
numeral go on with it.
-/

namespace QuantileMonitor.Text

def Digits (s : List Char) : Prop := ∀ c ∈ s, c.isDigit = true

/-- One digit or more after a plus or none, with their decimal value. -/
def Numeral (s : List Char) (n : Nat) : Prop :=
  ∃ digits, (s = digits ∨ s = '+' :: digits) ∧ digits ≠ [] ∧ Digits digits ∧
    Nat.ofDigitChars 10 digits 0 = n

variable {s digits more : List Char} {n m : Nat}

theorem digitsValue_eq (s : List Char) : digitsValue s = Nat.ofDigitChars 10 s 0 := by
  rw [Nat.ofDigitChars_eq_foldl]
  rfl

theorem Digits.not_mem {c : Char} (h : Digits s) (hc : c.isDigit = false) : c ∉ s := by
  intro hmem
  rw [h c hmem] at hc
  cases hc

theorem digits_toDigits (n : Nat) : Digits (Nat.toDigits 10 n) := fun _ hc =>
  Nat.isDigit_of_mem_toDigits (by decide) (by decide) hc

theorem dropPlus_of_digits (h : Digits s) : dropPlus s = s := by
  unfold dropPlus
  split
  next => exact absurd List.mem_cons_self (h.not_mem (by decide))
  next => rfl

theorem dropPlus_eq_or (s : List Char) : s = dropPlus s ∨ s = '+' :: dropPlus s := by
  unfold dropPlus
  split
  next => exact .inr rfl
  next => exact .inl rfl

theorem numeral_iff :
    Numeral s n ↔ dropPlus s ≠ [] ∧ Digits (dropPlus s) ∧ digitsValue (dropPlus s) = n := by
  rw [digitsValue_eq]
  constructor
  · rintro ⟨digits, rfl | rfl, hne, hdigits, hn⟩
    · rw [dropPlus_of_digits hdigits]
      exact ⟨hne, hdigits, hn⟩
    · exact ⟨hne, hdigits, hn⟩
  · intro h
    exact ⟨dropPlus s, dropPlus_eq_or s, h⟩

theorem unsigned?_eq_some_iff {bound : Nat} : unsigned? bound s = some n ↔ Numeral s n ∧ n < bound := by
  have hrefused : ((dropPlus s).isEmpty || !(dropPlus s).all Char.isDigit) = true ↔
      ¬(dropPlus s ≠ [] ∧ Digits (dropPlus s)) := by
    simp [Digits, imp_iff_not_or]
  rw [numeral_iff, unsigned?]
  dsimp only
  split_ifs with hno hlt
  · rw [false_iff]
    rintro ⟨⟨hne, hdigits, -⟩, -⟩
    exact hrefused.mp hno ⟨hne, hdigits⟩
  · rw [Option.some.injEq]
    obtain ⟨hne, hdigits⟩ := not_not.mp (mt hrefused.mpr hno)
    constructor
    · rintro rfl
      exact ⟨⟨hne, hdigits, rfl⟩, hlt⟩
    · rintro ⟨⟨-, -, hn⟩, -⟩
      exact hn
  · rw [false_iff]
    rintro ⟨⟨-, -, rfl⟩, hn⟩
    exact hlt hn

theorem Numeral.unique (h : Numeral s n) (h' : Numeral s m) : n = m :=
  (numeral_iff.mp h).2.2.symm.trans (numeral_iff.mp h').2.2

theorem isBlank_of_isDigit {c : Char} (h : c.isDigit = true) : isBlank c = false := by
  have hrange : 48 ≤ c.toNat ∧ c.toNat ≤ 57 := by
    simpa [Char.isDigit, UInt32.le_iff_toNat_le] using h
  simp only [isBlank, Bool.or_eq_false_iff, Bool.and_eq_false_iff, decide_eq_false_iff_not]
  omega

theorem Digits.solid (h : Digits s) (hne : s ≠ []) : Solid s :=
  ⟨hne, fun c hc => isBlank_of_isDigit (h c hc)⟩

theorem Numeral.solid (h : Numeral s n) : Solid s := by
  obtain ⟨digits, rfl | rfl, hne, hdigits, -⟩ := h
  · exact hdigits.solid hne
  · exact ⟨List.cons_ne_nil _ _, List.forall_mem_cons.mpr ⟨by decide, (hdigits.solid hne).2⟩⟩

theorem numeral_toDigits (n : Nat) : Numeral (Nat.toDigits 10 n) n :=
  ⟨_, .inl rfl, Nat.toDigits_ne_nil, digits_toDigits n, Nat.ofDigitChars_ten_toDigits⟩

/-- A numeral with blanks around it, or none. -/
def Padded (s : List Char) (n : Nat) : Prop :=
  ∃ before numeral after, s = before ++ numeral ++ after ∧ Blank before ∧ Numeral numeral n ∧ Blank after

theorem Numeral.padded (h : Numeral s n) : Padded s n := ⟨[], s, [], by simp, nofun, h, nofun⟩

theorem numeral_trim_iff : Numeral (trim s) n ↔ Padded s n := by
  constructor
  · intro h
    obtain ⟨before, after, hs, hbefore, hafter⟩ := exists_blanks s
    exact ⟨before, trim s, after, hs, hbefore, h, hafter⟩
  · rintro ⟨before, numeral, after, rfl, hbefore, hnumeral, hafter⟩
    rwa [trim_of_solid hbefore hnumeral.solid hafter]

theorem Numeral.append (h : Numeral s n) (hmore : Digits more) :
    Numeral (s ++ more) (Nat.ofDigitChars 10 more n) := by
  obtain ⟨digits, hs, hne, hdigits, rfl⟩ := h
  refine ⟨digits ++ more, hs.imp (by rintro rfl; rfl) (by rintro rfl; rfl), by simp [hne], ?_, ?_⟩
  · intro c hc
    exact (List.mem_append.mp hc).elim (hdigits c) (hmore c)
  · rw [Nat.ofDigitChars_append]

theorem numeral_append_iff (h : Numeral s n) :
    Numeral (s ++ more) m ↔ Digits more ∧ Nat.ofDigitChars 10 more n = m := by
  constructor
  · intro hlong
    have hmore : Digits more := by
      obtain ⟨c, s, rfl⟩ := List.exists_cons_of_ne_nil h.solid.1
      obtain ⟨digits, rfl | hplus, -, hdigits, -⟩ := hlong
      · exact fun d hd => hdigits d (List.mem_append_right _ hd)
      · obtain rfl := (List.cons.inj hplus).2
        exact fun d hd => hdigits d (List.mem_append_right _ hd)
    exact ⟨hmore, (h.append hmore).unique hlong⟩
  · rintro ⟨hmore, rfl⟩
    exact h.append hmore

theorem Numeral.isDigit_getLast (h : Numeral s n) : ∀ c ∈ s.getLast?, c.isDigit = true := by
  obtain ⟨digits, hs, hne, hdigits, -⟩ := h
  have hlast : s.getLast? = digits.getLast? := by
    obtain rfl | rfl := hs
    · rfl
    · rw [List.getLast?_cons_of_ne_nil hne]
  rw [hlast]
  exact fun c hc => hdigits c (List.mem_of_mem_getLast? hc)

end QuantileMonitor.Text
