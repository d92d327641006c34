import QuantileMonitor.Device.Selection
import QuantileMonitor.Proofs.Outcome
import QuantileMonitor.Proofs.Text.Numeral

/-!
# Devices given by numbers

A device number has room for twelve bits of major number and twenty bits of minor number, a text may give
any two numbers of 32 bits. The text is accepted all the same, and bits without room are lost: the device
that it selects has the remainders for its numbers. So it is the device that the text names if and only
if both numbers have room.
-/

namespace QuantileMonitor

namespace DeviceId

def majors : Nat := 4096

def minors : Nat := 1048576

def Fits (major minor : Nat) : Prop := major < majors ∧ minor < minors

instance (major minor : Nat) : Decidable (Fits major minor) := inferInstanceAs (Decidable (_ ∧ _))

/-- The device that two numbers of any size lead to. -/
structure Reached (d : DeviceId) (major minor : Nat) : Prop where
  major : d.major.toNat = major % majors
  minor : d.minor.toNat = minor % minors

variable {d e : DeviceId} {major minor major' minor' : Nat}

theorem toNat_and_minors (n : UInt32) : (n &&& 0xfffff).toNat = n.toNat % minors := by
  rw [UInt32.toNat_and]
  exact Nat.and_two_pow_sub_one_eq_mod n.toNat 20

theorem toNat_major (d : DeviceId) : d.major.toNat = d.raw.toNat / minors := by
  rw [DeviceId.major, UInt32.toNat_shiftRight]
  exact Nat.shiftRight_eq_div_pow d.raw.toNat 20

theorem toNat_minor (d : DeviceId) : d.minor.toNat = d.raw.toNat % minors := toNat_and_minors d.raw

theorem eq_of_numbers (hmajor : d.major.toNat = e.major.toNat) (hminor : d.minor.toNat = e.minor.toNat) :
    d = e := by
  rw [toNat_major, toNat_major] at hmajor
  rw [toNat_minor, toNat_minor] at hminor
  have hraw : d.raw.toNat = e.raw.toNat := by
    rw [← Nat.div_add_mod d.raw.toNat minors, hmajor, hminor, Nat.div_add_mod]
  obtain ⟨raw⟩ := d
  obtain ⟨raw'⟩ := e
  exact congrArg mk (UInt32.toNat_inj.mp hraw)

theorem toNat_raw_ofNumbers (major minor : UInt32) :
    (ofNumbers major minor).raw.toNat = major.toNat % majors * minors + minor.toNat % minors := by
  have hshift : (major <<< 20).toNat = (major.toNat % majors) <<< 20 := by
    have htwenty : (20 : UInt32).toNat % 32 = 20 := rfl
    rw [UInt32.toNat_shiftLeft, htwenty, Nat.shiftLeft_eq, Nat.shiftLeft_eq, majors]
    omega
  have hroom : minor.toNat % minors < 2 ^ 20 := Nat.mod_lt _ (by decide)
  rw [ofNumbers, UInt32.toNat_or, hshift, toNat_and_minors, ← Nat.shiftLeft_add_eq_or_of_lt hroom,
    Nat.shiftLeft_eq]
  rfl

theorem ofNumbers_reached (major minor : UInt32) :
    (ofNumbers major minor).Reached major.toNat minor.toNat where
  major := by
    rw [toNat_major, toNat_raw_ofNumbers, minors]
    omega
  minor := by
    rw [toNat_minor, toNat_raw_ofNumbers, minors]
    omega

namespace Reached

theorem eq_iff_fits (h : d.Reached major minor) :
    d.major.toNat = major ∧ d.minor.toNat = minor ↔ Fits major minor := by
  rw [h.major, h.minor, Nat.mod_eq_iff_lt (by decide), Nat.mod_eq_iff_lt (by decide), Fits]

theorem eq_iff (h : d.Reached major minor) (h' : e.Reached major' minor') :
    d = e ↔ major % majors = major' % majors ∧ minor % minors = minor' % minors := by
  rw [← h.major, ← h'.major, ← h.minor, ← h'.minor]
  constructor
  · rintro rfl
    exact ⟨rfl, rfl⟩
  · rintro ⟨hmajor, hminor⟩
    exact eq_of_numbers hmajor hminor

end Reached

end DeviceId

namespace Device

open Text

def Denotes (text : List Char) (n : Nat) : Prop := unsigned? Word.halfBound (trim text) = some n

instance (text : List Char) (n : Nat) : Decidable (Denotes text n) :=
  inferInstanceAs (Decidable (_ = _))

/-- The part is two numbers with a colon between them. -/
def Literal (part : List Char) (major minor : Nat) : Prop :=
  ∃ front back, splitOn ':' part = [front, back] ∧ Denotes front major ∧ Denotes back minor

variable {text front back part : List Char} {n major minor : Nat} {d : DeviceId}

theorem denotes_iff : Denotes text n ↔ Padded text n ∧ n < Word.halfBound := by
  rw [Denotes, unsigned?_eq_some_iff, numeral_trim_iff]

theorem Denotes.toNat (h : Denotes text n) : n.toUInt32.toNat = n :=
  UInt32.toNat_ofNat_of_lt' (denotes_iff.mp h).2

theorem number_eq_ok_iff {field : String} {m : UInt32} :
    number field text = .ok m ↔ Denotes text m.toNat := by
  rw [number, Denotes]
  split
  next h => simp [h]
  next n h =>
    have hn := Denotes.toNat h
    rw [h, Except.ok.injEq, Option.some.injEq, ← UInt32.toNat_inj, hn]

theorem ofTexts_eq_ok {front back : List Char} (h : ofTexts front back = .ok d) :
    ∃ major minor, Denotes front major ∧ Denotes back minor ∧ d.Reached major minor := by
  simp only [ofTexts, bind_eq_ok, number_eq_ok_iff] at h
  obtain ⟨major, hmajor, minor, hminor, h⟩ := h
  cases h
  exact ⟨_, _, hmajor, hminor, DeviceId.ofNumbers_reached major minor⟩

theorem Denotes.unique {m : Nat} (h : Denotes text n) (h' : Denotes text m) : n = m := by
  rw [Denotes] at h h'
  rw [h] at h'
  exact Option.some.inj h'

theorem reached_of_ofTexts (h : ofTexts front back = .ok d) (hfront : Denotes front major)
    (hback : Denotes back minor) : d.Reached major minor := by
  obtain ⟨M, m, hM, hm, hreached⟩ := ofTexts_eq_ok h
  rwa [hM.unique hfront, hm.unique hback] at hreached

theorem exists_number_iff {field : String} : (∃ m, number field text = .ok m) ↔ ∃ n, Denotes text n := by
  simp only [number_eq_ok_iff]
  constructor
  · rintro ⟨m, h⟩
    exact ⟨m.toNat, h⟩
  · rintro ⟨n, h⟩
    exact ⟨n.toUInt32, by rwa [h.toNat]⟩

theorem exists_ofTexts_iff :
    (∃ d, ofTexts front back = .ok d) ↔ ∃ major minor, Denotes front major ∧ Denotes back minor := by
  constructor
  · rintro ⟨d, hd⟩
    obtain ⟨major, minor, hmajor, hminor, -⟩ := ofTexts_eq_ok hd
    exact ⟨major, minor, hmajor, hminor⟩
  · rintro ⟨major, minor, hmajor, hminor⟩
    obtain ⟨M, hM⟩ := exists_number_iff.mpr ⟨major, hmajor⟩
    obtain ⟨m, hm⟩ := exists_number_iff.mpr ⟨minor, hminor⟩
    exact ⟨_, bind_eq_ok.mpr ⟨_, hM, bind_eq_ok.mpr ⟨_, hm, rfl⟩⟩⟩

theorem selectPart_eq_ok_iff {tree : SysTree} {s : Selected}
    (hsplit : splitOn ':' part = [front, back]) :
    selectPart tree part = .ok s ↔ s.name = String.ofList part ∧ ofTexts front back = .ok s.id := by
  rw [selectPart, hsplit]
  dsimp only
  rw [bind_eq_ok]
  constructor
  · rintro ⟨d, hd, h⟩
    cases h
    exact ⟨rfl, hd⟩
  · rintro ⟨hname, hd⟩
    refine ⟨s.id, hd, ?_⟩
    rw [← hname]
    rfl

theorem Literal.selected (h : Literal part major minor) {tree : SysTree} {s : Selected}
    (hs : selectPart tree part = .ok s) :
    s.name = String.ofList part ∧ s.id.Reached major minor := by
  obtain ⟨front, back, hsplit, hfront, hback⟩ := h
  obtain ⟨hname, hd⟩ := (selectPart_eq_ok_iff hsplit).mp hs
  exact ⟨hname, reached_of_ofTexts hd hfront hback⟩

def ueventPath (tree : SysTree) (name : String) : String :=
  joinPath (joinPath tree.blockPath name) "uevent"

-- Lean's own equation for `deviceId` takes too long to derive, as it looks into the reading.
theorem deviceId_eq (tree : SysTree) (name : String) :
    tree.deviceId name =
      match tree.files.readText (ueventPath tree name) with
      | .error _ => .error (.notFound name)
      | .ok content => ofUevent name content.toList := by
  rfl

theorem deviceId_of_readText {tree : SysTree} {name content : String}
    (h : tree.files.readText (ueventPath tree name) = .ok content) :
    tree.deviceId name = ofUevent name content.toList := by
  rw [deviceId_eq, h]

theorem deviceId_eq_ofTexts {tree : SysTree} {name content : String}
    (hcontent : tree.files.readText (ueventPath tree name) = .ok content)
    (hmajor : field? content.toList "MAJOR" = some front)
    (hminor : field? content.toList "MINOR" = some back) :
    tree.deviceId name = ofTexts front back := by
  have hfront : required name content.toList "MAJOR" = .ok front := by rw [required, hmajor]
  have hback : required name content.toList "MINOR" = .ok back := by rw [required, hminor]
  rw [deviceId_of_readText hcontent, ofUevent, hfront, hback]
  rfl

/-- Two numbers with a colon between them select a device if and only if each is a numeral below `2 ^ 32`.
Its numbers are their remainders, so they are the numbers given just when these have room, and parts with
numbers that have no room share their device with others. It is the same with the numbers that the kernel
writes for a device. -/
theorem literal_selects_iff (tree : SysTree) :
    (∀ spec selected, select tree spec = .ok selected →
      List.Forall₂ (fun part s => ∀ major minor, Literal part major minor →
        s.name = String.ofList part ∧ s.id.Reached major minor ∧
          (s.id.major.toNat = major ∧ s.id.minor.toNat = minor ↔ DeviceId.Fits major minor))
        (parts spec) selected) ∧
    (∀ part front back, splitOn ':' part = [front, back] →
      ((∃ s, selectPart tree part = .ok s) ↔ ∃ major minor, Denotes front major ∧ Denotes back minor)) ∧
    (∀ part part' major minor major' minor' s s',
      Literal part major minor → Literal part' major' minor' →
      selectPart tree part = .ok s → selectPart tree part' = .ok s' →
      (s.id = s'.id ↔ major % DeviceId.majors = major' % DeviceId.majors ∧
        minor % DeviceId.minors = minor' % DeviceId.minors)) ∧
    ∀ name content front back, tree.files.readText (ueventPath tree name) = .ok content →
      field? content.toList "MAJOR" = some front → field? content.toList "MINOR" = some back →
      ((∃ d, tree.deviceId name = .ok d) ↔ ∃ major minor, Denotes front major ∧ Denotes back minor) ∧
        ∀ d major minor, tree.deviceId name = .ok d → Denotes front major → Denotes back minor →
          d.Reached major minor ∧
            (d.major.toNat = major ∧ d.minor.toNat = minor ↔ DeviceId.Fits major minor) := by
  refine ⟨fun spec selected h => ?_, fun part front back hsplit => ?_, ?_, ?_⟩
  · refine (mapM_eq_ok_iff.mp h).imp fun part s hs major minor hliteral => ?_
    obtain ⟨hname, hreached⟩ := hliteral.selected hs
    exact ⟨hname, hreached, hreached.eq_iff_fits⟩
  · rw [← exists_ofTexts_iff]
    constructor
    · rintro ⟨s, hs⟩
      exact ⟨s.id, ((selectPart_eq_ok_iff hsplit).mp hs).2⟩
    · rintro ⟨d, hd⟩
      exact ⟨⟨String.ofList part, d⟩, (selectPart_eq_ok_iff hsplit).mpr ⟨rfl, hd⟩⟩
  · intro part part' major minor major' minor' s s' hliteral hliteral' hs hs'
    exact (hliteral.selected hs).2.eq_iff (hliteral'.selected hs').2
  · intro name content front back hcontent hmajor hminor
    rw [deviceId_eq_ofTexts hcontent hmajor hminor]
    refine ⟨exists_ofTexts_iff, fun d major minor hd hfront hback => ?_⟩
    have hreached := reached_of_ofTexts hd hfront hback
    exact ⟨hreached, hreached.eq_iff_fits⟩

theorem literal_selects_iff_two :
    ∃ first second, select ⟨"/sys", .empty⟩ "8:32, 4104:0" = .ok [first, second] ∧
      first.id.major.toNat = 8 ∧ first.id.minor.toNat = 32 ∧ second.id.major.toNat ≠ 4104 := by
  have hselect : select ⟨"/sys", .empty⟩ "8:32, 4104:0" =
      .ok [⟨"8:32", ⟨0x800020⟩⟩, ⟨"4104:0", ⟨0x800000⟩⟩] := by
    apply eq_ok_of_toOption
    decide +kernel
  have hparts : parts "8:32, 4104:0" = ["8:32".toList, "4104:0".toList] := by decide +kernel
  obtain ⟨hselected, -⟩ := literal_selects_iff ⟨"/sys", .empty⟩
  have hall := hselected _ _ hselect
  rw [hparts] at hall
  obtain ⟨hfirst, hrest⟩ := List.forall₂_cons.mp hall
  obtain ⟨hsecond, -⟩ := List.forall₂_cons.mp hrest
  have hliteral : Literal "8:32".toList 8 32 := ⟨['8'], ['3', '2'], by decide, by decide, by decide⟩
  have hliteral' : Literal "4104:0".toList 4104 0 :=
    ⟨['4', '1', '0', '4'], ['0'], by decide, by decide, by decide⟩
  obtain ⟨-, -, hfits⟩ := hfirst 8 32 hliteral
  obtain ⟨-, -, hfits'⟩ := hsecond 4104 0 hliteral'
  obtain ⟨hmajor, hminor⟩ := hfits.mpr (by decide)
  refine ⟨_, _, hselect, hmajor, hminor, fun hlarge => ?_⟩
  exact absurd (hfits'.mp ⟨hlarge, rfl⟩) (by decide)

/-- The number 4104 has no room, and yet its text is accepted: it selects the disk 8:0. -/
theorem large_literal_selects_other :
    Literal "4104:0".toList 4104 0 ∧ ¬DeviceId.Fits 4104 0 ∧
      select ⟨"/sys", .empty⟩ "4104:0" = .ok [⟨"4104:0", ⟨0x800000⟩⟩] ∧
      select ⟨"/sys", .empty⟩ "8:0" = .ok [⟨"8:0", ⟨0x800000⟩⟩] ∧
      (⟨0x800000⟩ : DeviceId).major.toNat = 8 := by
  refine ⟨⟨['4', '1', '0', '4'], ['0'], by decide, by decide, by decide⟩, by decide, ?_, ?_, rfl⟩
  · apply eq_ok_of_toOption
    decide +kernel
  · apply eq_ok_of_toOption
    decide +kernel

end Device

end QuantileMonitor
