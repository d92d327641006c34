import QuantileMonitor.Monitor.Targets
import QuantileMonitor.Proofs.Device.Numbers
import QuantileMonitor.Proofs.Text.Lines

/-!
# Devices given by their display

A device is displayed by its two numbers with a colon between them, and this text selects the device again,
whatever the tree holds. So does a list of such texts with commas between them: the devices come in order,
blank parts and blanks around a part do not matter, and no name of such a part becomes known as a name.
-/

namespace QuantileMonitor

open Text

namespace DeviceId

theorem fits (d : DeviceId) : Fits d.major.toNat d.minor.toNat := by
  have hraw := d.raw.toNat_lt
  rw [Fits, toNat_major, toNat_minor, majors, minors]
  omega

theorem ofNumbers_major_minor (d : DeviceId) : ofNumbers d.major d.minor = d := by
  obtain ⟨hmajor, hminor⟩ := (ofNumbers_reached d.major d.minor).eq_iff_fits.mpr d.fits
  exact eq_of_numbers hmajor hminor

theorem toList_display (d : DeviceId) :
    d.display.toList = Nat.toDigits 10 d.major.toNat ++ ':' :: Nat.toDigits 10 d.minor.toNat := by
  have hcolon : (toString ":").toList = [':'] := by decide
  simp [display, hcolon]

theorem solid_display (d : DeviceId) : Solid d.display.toList := by
  refine ⟨by simp [toList_display], fun c hc => ?_⟩
  rw [toList_display, List.mem_append, List.mem_cons] at hc
  rcases hc with hmajor | rfl | hminor
  · exact isBlank_of_isDigit (digits_toDigits _ c hmajor)
  · decide
  · exact isBlank_of_isDigit (digits_toDigits _ c hminor)

theorem comma_not_mem_display (d : DeviceId) : ',' ∉ d.display.toList := by
  have hdigits : ∀ n, ',' ∉ Nat.toDigits 10 n := fun n => (digits_toDigits n).not_mem (by decide)
  simp [toList_display, hdigits]

end DeviceId

namespace Device

theorem denotes_toDigits {n : Nat} (h : n < Word.halfBound) : Denotes (Nat.toDigits 10 n) n :=
  denotes_iff.mpr ⟨(numeral_toDigits n).padded, h⟩

theorem number_toDigits (field : String) (n : UInt32) : number field (Nat.toDigits 10 n.toNat) = .ok n :=
  number_eq_ok_iff.mpr (denotes_toDigits n.toNat_lt)

theorem splitOn_display (d : DeviceId) :
    splitOn ':' d.display.toList = [Nat.toDigits 10 d.major.toNat, Nat.toDigits 10 d.minor.toNat] := by
  have hcolon : ∀ n, ':' ∉ Nat.toDigits 10 n := fun n => (digits_toDigits n).not_mem (by decide)
  have hjoined : d.display.toList =
      [':'].intercalate [Nat.toDigits 10 d.major.toNat, Nat.toDigits 10 d.minor.toNat] := by
    simp [DeviceId.toList_display, List.intercalate]
  rw [hjoined]
  exact splitOn_intercalate (by simp [hcolon]) (List.cons_ne_nil _ _)

theorem selectPart_display (tree : SysTree) (d : DeviceId) :
    selectPart tree d.display.toList = .ok ⟨d.display, d⟩ := by
  rw [selectPart_eq_ok_iff (splitOn_display d)]
  refine ⟨String.ofList_toList.symm, ?_⟩
  rw [ofTexts, number_toDigits, number_toDigits]
  exact congrArg Except.ok d.ofNumbers_major_minor

theorem exists_literal {part : List Char} (hcolon : ':' ∈ part) {tree : SysTree} {s : Selected}
    (h : selectPart tree part = .ok s) :
    ∃ major minor, Literal part major minor := by
  obtain ⟨front, rest, rfl, hfront⟩ := List.eq_append_cons_of_mem hcolon
  have hsplit := splitOn_append_cons hfront rest
  rcases hback : splitOn ':' rest with _ | ⟨back, _ | ⟨other, more⟩⟩
  · exact absurd hback (splitOn_ne_nil ':' rest)
  · rw [hback] at hsplit
    obtain ⟨-, hd⟩ := (selectPart_eq_ok_iff hsplit).mp h
    obtain ⟨major, minor, hmajor, hminor⟩ := exists_ofTexts_iff.mp ⟨s.id, hd⟩
    exact ⟨major, minor, front, back, hsplit, hmajor, hminor⟩
  · rw [selectPart, hsplit, hback] at h
    cases h

theorem literal_display (d : DeviceId) : Literal d.display.toList d.major.toNat d.minor.toNat :=
  ⟨_, _, splitOn_display d, denotes_toDigits d.major.toNat_lt, denotes_toDigits d.minor.toNat_lt⟩

theorem Literal.unique {part : List Char} {major minor major' minor' : Nat} (h : Literal part major minor)
    (h' : Literal part major' minor') : major = major' ∧ minor = minor' := by
  obtain ⟨front, back, hsplit, hmajor, hminor⟩ := h
  obtain ⟨front', back', hsplit', hmajor', hminor'⟩ := h'
  rw [hsplit] at hsplit'
  cases hsplit'
  exact ⟨hmajor.unique hmajor', hminor.unique hminor'⟩

theorem eq_display_iff {part : List Char} {major minor : Nat} {d : DeviceId} (h : Literal part major minor)
    (hreached : d.Reached major minor) :
    part = d.display.toList ↔
      DeviceId.Fits major minor ∧ part = Nat.toDigits 10 major ++ ':' :: Nat.toDigits 10 minor := by
  rw [← hreached.eq_iff_fits, DeviceId.toList_display]
  constructor
  · intro hpart
    rw [← DeviceId.toList_display] at hpart
    obtain ⟨hmajor, hminor⟩ := (hpart ▸ h).unique (literal_display d)
    refine ⟨⟨hmajor.symm, hminor.symm⟩, ?_⟩
    rw [hpart, DeviceId.toList_display, hmajor, hminor]
  · rintro ⟨⟨hmajor, hminor⟩, hpart⟩
    rw [hmajor, hminor, hpart]

/-- A part of a list of devices: blanks, and the display of a device between them or none. -/
structure Piece where
  before : {s : List Char // Blank s}
  device : Option DeviceId
  after : {s : List Char // Blank s}

namespace Piece

def name (p : Piece) : List Char := p.device.elim [] (·.display.toList)

def text (p : Piece) : List Char := p.before.1 ++ p.name ++ p.after.1

variable (p : Piece)

theorem comma_not_mem_text : ',' ∉ p.text := by
  have hblank : ∀ s : {s : List Char // Blank s}, ',' ∉ s.1 := fun s => s.2.not_mem (by decide)
  have hname : ',' ∉ p.name := by
    rw [name]
    cases p.device with
    | none => exact List.not_mem_nil
    | some d => exact d.comma_not_mem_display
  simp [text, hblank, hname]

theorem trim_text : trim p.text = p.name := by
  rw [text, name]
  cases p.device with
  | none =>
    rw [Option.elim_none, List.append_nil]
    exact (trim_eq_nil_iff _).mpr (p.before.2.append p.after.2)
  | some d => exact trim_of_solid p.before.2 d.solid_display p.after.2

end Piece

def filterText (pieces : List Piece) : String := String.ofList ([','].intercalate (pieces.map Piece.text))

theorem filter_names (pieces : List Piece) :
    (pieces.map Piece.name).filter (!·.isEmpty) =
      (pieces.filterMap Piece.device).map (·.display.toList) := by
  induction pieces with
  | nil => rfl
  | cons p pieces ih =>
    obtain ⟨before, device, after⟩ := p
    rw [List.map_cons, List.filter_cons, ih]
    cases device with
    | none => simp [Piece.name]
    | some d => simp [Piece.name, d.solid_display.1]

theorem parts_filterText (pieces : List Piece) :
    parts (filterText pieces) = (pieces.filterMap Piece.device).map (·.display.toList) := by
  rw [parts, filterText, String.toList_ofList]
  by_cases hne : pieces = []
  · subst hne
    rfl
  · have hcommas : ∀ text ∈ pieces.map Piece.text, ',' ∉ text := by simp [Piece.comma_not_mem_text]
    have htrim : trim ∘ Piece.text = Piece.name := funext Piece.trim_text
    rw [splitOn_intercalate hcommas (by simpa using hne), List.map_map, htrim, filter_names]

def displayed (d : DeviceId) : Selected := ⟨d.display, d⟩

theorem select_filterText (pieces : List Piece) (tree : SysTree) :
    select tree (filterText pieces) = .ok ((pieces.filterMap Piece.device).map displayed) := by
  rw [select, mapM_eq_ok_iff, parts_filterText, List.forall₂_map_left_iff, List.forall₂_map_right_iff]
  exact List.forall₂_same.mpr fun d _ => selectPart_display tree d

/-- One selection serves every tree: the devices in their order, each with its display for its name. None of
them makes its name known. -/
theorem displays_select_devices (pieces : List Piece) :
    ∃ selected, (∀ tree, select tree (filterText pieces) = .ok selected) ∧
      selected.map Selected.id = pieces.filterMap Piece.device ∧
      ∀ s ∈ selected, s.name = s.id.display ∧ ∀ names, Monitor.seedName names s = names := by
  refine ⟨_, select_filterText pieces, by simp [Function.comp_def, displayed], fun s hs => ?_⟩
  obtain ⟨d, -, rfl⟩ := List.mem_map.mp hs
  exact ⟨rfl, fun names => if_pos rfl⟩

end Device

end QuantileMonitor
