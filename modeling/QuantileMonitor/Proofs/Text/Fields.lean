import Mathlib.Data.List.Basic
import Mathlib.Data.List.DropRight
import QuantileMonitor.Proofs.Text.Blank

/-!
# Words between blanks

A text is blanks alone, or it begins, after blanks or none, with a word that lasts until the next blank. Its
fields are these words in order, and trimming leaves a word with blanks around it as it is.
-/

namespace QuantileMonitor.Text

def Blank (s : List Char) : Prop := ∀ c ∈ s, isBlank c = true

def Solid (s : List Char) : Prop := s ≠ [] ∧ ∀ c ∈ s, isBlank c = false

-- The letters are run through: a decision over every letter there is would be found first.
instance (s : List Char) : Decidable (Solid s) :=
  decidable_of_iff (s ≠ [] ∧ s.all (!isBlank ·)) (by simp [Solid])

def EndsWord (rest : List Char) : Prop := ∀ c ∈ rest.head?, isBlank c = true

def ClosesWord (s : List Char) : Prop := ∀ c ∈ s.getLast?, isBlank c = true

variable {s w before after rest : List Char} {ws : List (List Char)} {c : Char}

theorem Blank.append (h : Blank before) (h' : Blank after) : Blank (before ++ after) := by
  intro c hc
  exact (List.mem_append.mp hc).elim (h c) (h' c)

theorem Blank.not_mem (h : Blank s) (hc : isBlank c = false) : c ∉ s := by
  intro hmem
  rw [h c hmem] at hc
  cases hc

theorem Blank.endsWord (h : Blank s) : EndsWord s := fun c hc => h c (List.mem_of_mem_head? hc)

theorem Blank.closesWord (h : Blank after) (hne : after ≠ []) (s : List Char) : ClosesWord (s ++ after) := by
  intro c hc
  rw [List.getLast?_append_of_ne_nil s hne] at hc
  exact h c (List.mem_of_getLast? hc)

theorem trimLeft_of_solid (h : Solid w) (rest : List Char) : trimLeft (w ++ rest) = w ++ rest := by
  obtain ⟨c, w, rfl⟩ := List.exists_cons_of_ne_nil h.1
  have hc := h.2 c List.mem_cons_self
  rw [trimLeft, List.cons_append, List.dropWhile_cons_of_neg (by simp [hc])]

theorem trim_of_solid (hbefore : Blank before) (hw : Solid w) (hafter : Blank after) :
    trim (before ++ w ++ after) = w := by
  have hleft : trimLeft (before ++ w ++ after) = w ++ after := by
    rw [List.append_assoc, trimLeft, List.dropWhile_append_of_pos hbefore]
    exact trimLeft_of_solid hw after
  have hsolid : Solid w.reverse := ⟨by simpa using hw.1, by simpa using hw.2⟩
  have hright : (w ++ after).reverse.dropWhile isBlank = w.reverse := by
    rw [List.reverse_append, List.dropWhile_append_of_pos (by simpa [Blank] using hafter)]
    simpa [trimLeft] using trimLeft_of_solid hsolid []
  rw [trim, hleft, trimRight, hright, List.reverse_reverse]

theorem Solid.trim_eq (h : Solid w) : trim w = w := by
  have htrim : trim ([] ++ w ++ []) = w := trim_of_solid nofun h nofun
  simpa using htrim

theorem exists_blanks (s : List Char) :
    ∃ before after, s = before ++ trim s ++ after ∧ Blank before ∧ Blank after := by
  have hright : ∀ t, trimRight t ++ t.rtakeWhile isBlank = t := by
    intro t
    rw [trimRight, List.rtakeWhile, ← List.reverse_append, List.takeWhile_append_dropWhile,
      List.reverse_reverse]
  refine ⟨s.takeWhile isBlank, (trimLeft s).rtakeWhile isBlank, ?_, fun c hc => List.mem_takeWhile_imp hc,
    fun c hc => List.mem_rtakeWhile_imp hc⟩
  rw [trim, List.append_assoc, hright, trimLeft, List.takeWhile_append_dropWhile]

theorem trim_append_blank (h : Blank after) (s : List Char) : trim (s ++ after) = trim s := by
  have hright : ∀ t, trimRight (t ++ after) = trimRight t := by
    intro t
    rw [trimRight, List.reverse_append, List.dropWhile_append_of_pos (by simpa [Blank] using h), trimRight]
  rw [trim, trim, trimLeft, trimLeft, List.dropWhile_append]
  split
  next hempty =>
    rw [List.isEmpty_iff] at hempty
    rw [hempty, List.dropWhile_eq_nil_iff.mpr h]
  next => exact hright _

theorem trim_trim (s : List Char) : trim (trim s) = trim s := by
  have hleft : trimLeft (trim s) = trim s := by
    cases htrim : trim s with
    | nil => rfl
    | cons c rest =>
      obtain ⟨more, hmore⟩ : c :: rest <+: s.dropWhile isBlank := htrim ▸ List.rdropWhile_prefix isBlank _
      have hhead := List.head?_dropWhile_not isBlank s
      rw [← hmore] at hhead
      exact List.dropWhile_cons_of_neg (by simpa using hhead)
  have hright : trimRight (trim s) = trim s := List.rdropWhile_idempotent isBlank _
  rw [trim, hleft, hright]

theorem fieldsFrom_append_cons (h : isBlank c = true) (word s rest : List Char) :
    fieldsFrom word (s ++ c :: rest) = fieldsFrom word s ++ fields rest := by
  induction s generalizing word with
  | nil => cases word <;> simp [fieldsFrom, fields, h]
  | cons d s ih => cases hd : isBlank d <;> cases word <;> simp [fieldsFrom, hd, ih]

theorem fields_append_cons (h : isBlank c = true) (s rest : List Char) :
    fields (s ++ c :: rest) = fields s ++ fields rest :=
  fieldsFrom_append_cons h [] s rest

theorem fields_append (h : ClosesWord s) (rest : List Char) : fields (s ++ rest) = fields s ++ fields rest := by
  rcases List.eq_nil_or_concat s with rfl | ⟨s, c, rfl⟩
  · rfl
  · rw [List.concat_eq_append] at h ⊢
    have hc : isBlank c = true := h c (by simp)
    rw [List.append_assoc, List.singleton_append, fields_append_cons hc, fields_append_cons hc]
    simp [fields, fieldsFrom]

theorem fields_blank_append (h : Blank before) (s : List Char) : fields (before ++ s) = fields s := by
  induction before with
  | nil => rfl
  | cons c before ih =>
    obtain ⟨hc, hbefore⟩ := List.forall_mem_cons.mp h
    rw [List.cons_append, ← ih hbefore]
    exact fields_append_cons hc [] (before ++ s)

theorem fieldsFrom_of_solid (word : List Char) (h : ∀ c ∈ s, isBlank c = false) :
    fieldsFrom word s = fieldsFrom (s.reverse ++ word) [] := by
  induction s generalizing word with
  | nil => rfl
  | cons c s ih =>
    obtain ⟨hc, hs⟩ := List.forall_mem_cons.mp h
    have hstep : fieldsFrom word (c :: s) = fieldsFrom (c :: word) s := by simp [fieldsFrom, hc]
    rw [hstep, ih (c :: word) hs, List.reverse_cons, List.append_assoc, List.singleton_append]

theorem fields_of_solid (h : Solid w) : fields w = [w] := by
  rw [fields, fieldsFrom_of_solid [] h.2]
  simp [fieldsFrom, h.1]

theorem fields_solid_append (hw : Solid w) (hrest : EndsWord rest) :
    fields (w ++ rest) = w :: fields rest := by
  cases rest with
  | nil => rw [List.append_nil, fields_of_solid hw]; rfl
  | cons c rest =>
    have hc : isBlank c = true := hrest c rfl
    rw [fields_append_cons hc, fields_of_solid hw, ← List.nil_append (c :: rest), fields_append_cons hc]
    rfl

theorem exists_run (s : List Char) :
    ∃ run rest, s = run ++ rest ∧ (∀ c ∈ run, isBlank c = false) ∧ EndsWord rest := by
  refine ⟨s.takeWhile (!isBlank ·), s.dropWhile (!isBlank ·), by simp,
    fun c hc => by simpa using List.mem_takeWhile_imp hc, fun c hc => ?_⟩
  have hhead := List.head?_dropWhile_not (!isBlank ·) s
  rw [Option.mem_def] at hc
  simpa [hc] using hhead

theorem exists_word (s : List Char) :
    Blank s ∨ ∃ before w rest, s = before ++ w ++ rest ∧ Blank before ∧ Solid w ∧ EndsWord rest := by
  have hbefore : Blank (s.takeWhile isBlank) := fun c hc => List.mem_takeWhile_imp hc
  cases hword : s.dropWhile isBlank with
  | nil => exact .inl (List.dropWhile_eq_nil_iff.mp hword)
  | cons c t =>
    have hc : isBlank c = false := by
      have hhead := List.head?_dropWhile_not isBlank s
      simpa [hword] using hhead
    obtain ⟨run, rest, rfl, hrun, hrest⟩ := exists_run t
    have hs : s = s.takeWhile isBlank ++ (c :: run) ++ rest := by
      rw [List.append_assoc, List.cons_append, ← hword, List.takeWhile_append_dropWhile]
    exact .inr ⟨s.takeWhile isBlank, c :: run, rest, hs, hbefore,
      ⟨List.cons_ne_nil c run, List.forall_mem_cons.mpr ⟨hc, hrun⟩⟩, hrest⟩

theorem fields_eq_cons_iff :
    fields s = w :: ws ↔ ∃ before rest, s = before ++ w ++ rest ∧ Blank before ∧ Solid w ∧
      EndsWord rest ∧ fields rest = ws := by
  constructor
  · intro h
    rcases exists_word s with hblank | ⟨before, first, rest, rfl, hbefore, hfirst, hrest⟩
    · have hnil := fields_blank_append hblank []
      rw [List.append_nil, h] at hnil
      cases hnil
    · rw [List.append_assoc, fields_blank_append hbefore, fields_solid_append hfirst hrest] at h
      cases h
      exact ⟨before, rest, rfl, hbefore, hfirst, hrest, rfl⟩
  · rintro ⟨before, rest, rfl, hbefore, hw, hrest, rfl⟩
    rw [List.append_assoc, fields_blank_append hbefore, fields_solid_append hw hrest]

theorem fields_eq_nil_iff : fields s = [] ↔ Blank s := by
  constructor
  · intro h
    rcases exists_word s with hblank | ⟨before, w, rest, hs⟩
    · exact hblank
    · have hcons := fields_eq_cons_iff.mpr ⟨before, rest, hs.1, hs.2.1, hs.2.2.1, hs.2.2.2, rfl⟩
      rw [h] at hcons
      cases hcons
  · intro h
    have hnil := fields_blank_append h []
    rwa [List.append_nil] at hnil

theorem fields_eq_pair_iff {first second : List Char} :
    fields s = [first, second] ↔ ∃ before between after,
      s = before ++ first ++ between ++ second ++ after ∧ Blank before ∧ Solid first ∧
        Blank between ∧ between ≠ [] ∧ Solid second ∧ Blank after := by
  rw [fields_eq_cons_iff]
  constructor
  · rintro ⟨before, rest, rfl, hbefore, hfirst, hends, hfields⟩
    obtain ⟨between, after, rfl, hbetween, hsecond, -, hafter⟩ := fields_eq_cons_iff.mp hfields
    refine ⟨before, between, after, by simp, hbefore, hfirst, hbetween, ?_, hsecond,
      fields_eq_nil_iff.mp hafter⟩
    rintro rfl
    obtain ⟨c, second, rfl⟩ := List.exists_cons_of_ne_nil hsecond.1
    have hc := hsecond.2 c List.mem_cons_self
    rw [hends c rfl] at hc
    cases hc
  · rintro ⟨before, between, after, rfl, hbefore, hfirst, hbetween, hne, hsecond, hafter⟩
    have hends : EndsWord (between ++ second ++ after) := by
      obtain ⟨c, between, rfl⟩ := List.exists_cons_of_ne_nil hne
      intro d hd
      cases hd
      exact hbetween c List.mem_cons_self
    refine ⟨before, between ++ second ++ after, by simp, hbefore, hfirst, hends, ?_⟩
    exact fields_eq_cons_iff.mpr
      ⟨between, after, rfl, hbetween, hsecond, hafter.endsWord, fields_eq_nil_iff.mpr hafter⟩

end QuantileMonitor.Text
