import QuantileMonitor.Proofs.Device.Numbers
import QuantileMonitor.Proofs.Text.Lines

/-!
# Fields of an uevent file

The value of a key is what follows it and an equals sign on the first line that begins so. Lines with a
longer key, lines without an equals sign and indented lines are passed over. From the first lines of both
keys comes the number of a device, and what is missing is told before what is no number.
-/

namespace QuantileMonitor.Device

open Text

variable {line rest before after text value front back : List Char} {key : String} {c : Char}

def field (key : String) (rest : List Char) : List Char := key.toList ++ '=' :: rest

def valueOn? (key : String) (line : List Char) : Option (List Char) :=
  (dropStart? (key.toList ++ ['=']) line).map trim

theorem valueOn?_eq_some_iff :
    valueOn? key line = some value ↔ ∃ rest, line = field key rest ∧ trim rest = value := by
  simp [valueOn?, field, dropStart?_eq_some_iff]

theorem valueOn?_eq_none_iff : valueOn? key line = none ↔ ∀ rest, line ≠ field key rest := by
  simp [Option.eq_none_iff_forall_ne_some, valueOn?_eq_some_iff]

theorem valueOn?_append_return (key : String) (line : List Char) :
    valueOn? key (line ++ ['\r']) = valueOn? key line := by
  have htrim : ∀ rest, trim (rest ++ ['\r']) = trim rest := trim_append_blank (by simp [Blank, isBlank])
  apply Option.ext
  intro value
  simp only [valueOn?_eq_some_iff]
  constructor
  · rintro ⟨rest, hline, rfl⟩
    rcases List.eq_nil_or_concat rest with rfl | ⟨rest, c, rfl⟩
    · have hlast := congrArg List.getLast? hline
      simp [field] at hlast
    · have hconcat : line ++ ['\r'] = field key rest ++ [c] := by simpa [field] using hline
      obtain ⟨rfl, hc⟩ := List.append_inj' hconcat rfl
      obtain rfl : '\r' = c := by simpa using hc
      exact ⟨rest, rfl, by rw [List.concat_eq_append, htrim]⟩
  · rintro ⟨rest, rfl, rfl⟩
    exact ⟨rest ++ ['\r'], by simp [field], htrim rest⟩

theorem valueOn?_dropReturn (key : String) (line : List Char) :
    valueOn? key (dropReturn line) = valueOn? key line := by
  rw [dropReturn]
  split
  next hlast =>
    obtain ⟨front, rfl⟩ := List.getLast?_eq_some_iff.mp hlast
    rw [List.dropLast_concat, valueOn?_append_return]
  next => rfl

theorem valueOn?_of_ended (h : Ended (field key rest) line) : valueOn? key line = some (trim rest) := by
  have hvalue : valueOn? key (field key rest) = some (trim rest) := valueOn?_eq_some_iff.mpr ⟨rest, rfl, rfl⟩
  obtain rfl | rfl := h
  · exact hvalue
  · rw [valueOn?_append_return, hvalue]

theorem field?_of_not_mem (h : '\n' ∉ line) (key : String) : field? line key = valueOn? key line := by
  rw [field?, lines_of_not_mem h]
  cases line with
  | nil =>
    have hnone : valueOn? key [] = none := valueOn?_eq_none_iff.mpr (by simp [field])
    rw [hnone]
    rfl
  | cons c line => simp [valueOn?]

theorem field?_append_cons (h : '\n' ∉ line) (rest : List Char) (key : String) :
    field? (line ++ '\n' :: rest) key = (valueOn? key line).or (field? rest key) := by
  rw [field?, lines_append_cons h, List.findSome?_cons, ← valueOn?, valueOn?_dropReturn, field?]
  cases valueOn? key line with
  | none => rfl
  | some value => rfl

/-- The first line that gives the key a value, with what follows the equals sign. -/
def FirstLine (text : List Char) (key : String) (rest : List Char) : Prop :=
  ∃ before, LineAt text before (field key rest) ∧
    ∀ earlier other, LineAt text earlier (field key other) → before.length ≤ earlier.length

theorem valueOn?_eq_some_iff_ended :
    valueOn? key line = some value ↔ ∃ rest, Ended (field key rest) line ∧ trim rest = value := by
  constructor
  · intro h
    obtain ⟨rest, rfl, hrest⟩ := valueOn?_eq_some_iff.mp h
    exact ⟨rest, .inl rfl, hrest⟩
  · rintro ⟨rest, hended, rfl⟩
    exact valueOn?_of_ended hended

theorem firstLine_of_not_mem (h : '\n' ∉ line) : FirstLine line key rest ↔ line = field key rest := by
  simp only [FirstLine, lineAt_iff_of_not_mem h]
  constructor
  · rintro ⟨before, ⟨-, hline⟩, -⟩
    exact hline.symm
  · rintro rfl
    exact ⟨[], ⟨rfl, rfl⟩, fun _ _ _ => Nat.zero_le _⟩

theorem firstLine_append_cons (h : '\n' ∉ line) :
    FirstLine (line ++ '\n' :: text) key rest ↔
      Ended (field key rest) line ∨ valueOn? key line = none ∧ FirstLine text key rest := by
  have hstands : ∀ before rest, LineAt (line ++ '\n' :: text) before (field key rest) ↔
      before = [] ∧ Ended (field key rest) line ∨
        ∃ before', before = line ++ '\n' :: before' ∧ LineAt text before' (field key rest) :=
    fun _ _ => lineAt_append_cons_iff h
  constructor
  · rintro ⟨before, hline, hfirst⟩
    obtain ⟨-, hended⟩ | ⟨before, rfl, hthere⟩ := (hstands before rest).mp hline
    · exact .inl hended
    · right
      constructor
      · refine Option.eq_none_iff_forall_ne_some.mpr fun value hvalue => ?_
        obtain ⟨other, hended, -⟩ := valueOn?_eq_some_iff_ended.mp hvalue
        have hle := hfirst [] other ((hstands [] other).mpr (.inl ⟨rfl, hended⟩))
        simp at hle
      · refine ⟨before, hthere, fun earlier other hother => ?_⟩
        have hle := hfirst _ other ((hstands _ other).mpr (.inr ⟨earlier, rfl, hother⟩))
        simpa using hle
  · rintro (hended | ⟨hnone, before, hline, hfirst⟩)
    · exact ⟨[], (hstands [] rest).mpr (.inl ⟨rfl, hended⟩), fun _ _ _ => Nat.zero_le _⟩
    · refine ⟨line ++ '\n' :: before, (hstands _ rest).mpr (.inr ⟨before, rfl, hline⟩), ?_⟩
      intro earlier other hother
      obtain ⟨-, hended⟩ | ⟨earlier, rfl, hthere⟩ := (hstands earlier other).mp hother
      · rw [valueOn?_of_ended hended] at hnone
        cases hnone
      · simpa using hfirst earlier other hthere

theorem field?_eq_some_iff (text : List Char) :
    field? text key = some value ↔ ∃ rest, FirstLine text key rest ∧ trim rest = value := by
  induction text using lineInduction with
  | last line h =>
    simp only [field?_of_not_mem h, valueOn?_eq_some_iff, firstLine_of_not_mem h]
  | more line text h ih =>
    rw [field?_append_cons h, Option.or_eq_some_iff, ih, valueOn?_eq_some_iff_ended]
    simp only [firstLine_append_cons h, or_and_right, exists_or, and_assoc, exists_and_left]

theorem valueOn?_eq_none_iff_ended : valueOn? key line = none ↔ ∀ rest, ¬Ended (field key rest) line := by
  simp only [Option.eq_none_iff_forall_ne_some, ne_eq, valueOn?_eq_some_iff_ended, not_exists, not_and]
  constructor
  · intro h rest hended
    exact h (trim rest) rest hended rfl
  · intro h value rest hended
    exact absurd hended (h rest)

def Lacks (text : List Char) (key : String) : Prop := ∀ before rest, ¬LineAt text before (field key rest)

theorem field?_eq_none_iff (text : List Char) : field? text key = none ↔ Lacks text key := by
  unfold Lacks
  induction text using lineInduction with
  | last line h =>
    rw [field?_of_not_mem h, valueOn?_eq_none_iff]
    simp only [lineAt_iff_of_not_mem h]
    exact ⟨fun hall _ rest hline => hall rest hline.2.symm,
      fun hall rest hline => hall [] rest ⟨rfl, hline.symm⟩⟩
  | more line text h ih =>
    rw [field?_append_cons h, Option.or_eq_none_iff, ih, valueOn?_eq_none_iff_ended]
    simp only [lineAt_append_cons_iff h]
    constructor
    · rintro ⟨hnone, hothers⟩ before rest (⟨-, hended⟩ | ⟨later, -, hline⟩)
      · exact hnone rest hended
      · exact hothers later rest hline
    · intro hall
      exact ⟨fun rest hended => hall [] rest (.inl ⟨rfl, hended⟩),
        fun before rest hline => hall _ rest (.inr ⟨before, rfl, hline⟩)⟩

theorem not_lacks_iff : ¬Lacks text key ↔ ∃ rest, FirstLine text key rest := by
  rw [← field?_eq_none_iff, ← ne_eq, Option.ne_none_iff_exists']
  constructor
  · rintro ⟨value, h⟩
    obtain ⟨rest, hrest, -⟩ := (field?_eq_some_iff text).mp h
    exact ⟨rest, hrest⟩
  · rintro ⟨rest, hrest⟩
    exact ⟨trim rest, (field?_eq_some_iff text).mpr ⟨rest, hrest, rfl⟩⟩

theorem field?_append (h : StartsLine before) (text : List Char) (key : String) :
    field? (before ++ text) key = (field? before key).or (field? text key) := by
  induction before using lineInduction with
  | last line hline =>
    obtain rfl := h.eq_nil hline
    rfl
  | more line rest hline ih =>
    rw [List.append_assoc, List.cons_append, field?_append_cons hline, field?_append_cons hline,
      ih (startsLine_append_cons.mp h), Option.or_assoc]

/-- Lines that only look as if they gave the key a value: without an equals sign, with a key that goes on, or
with blanks before the key. -/
inductive Foreign (key : String) : List Char → Prop
  | bare {line : List Char} (h : '=' ∉ line) : Foreign key line
  | longer {c : Char} (h : c ≠ '=') (rest : List Char) : Foreign key (key.toList ++ c :: rest)
  | indented {blanks : List Char} (h : Blank blanks) (hne : blanks ≠ []) (rest : List Char) :
      Foreign key (blanks ++ field key rest)

theorem takeWhile_field (key : String) (rest : List Char) :
    (field key rest).takeWhile isBlank = key.toList.takeWhile isBlank := by
  have hequals : isBlank '=' = false := by decide
  rw [field, List.takeWhile_append, List.takeWhile_cons_of_neg (by simp [hequals])]
  split
  next hall =>
    have hwhole := List.takeWhile_prefix isBlank (l := key.toList)
    rw [List.append_nil, hwhole.eq_of_length hall]
  next => rfl

theorem Foreign.valueOn?_eq_none (h : Foreign key line) : valueOn? key line = none := by
  rw [valueOn?_eq_none_iff]
  intro rest hline
  cases h with
  | bare h => exact h (by simp [hline, field])
  | longer h more =>
    rw [field] at hline
    exact h (List.cons.inj (List.append_cancel_left hline)).1
  | indented h hne more =>
    have hblanks := congrArg (List.takeWhile isBlank) hline
    rw [List.takeWhile_append_of_pos h, takeWhile_field, takeWhile_field] at hblanks
    exact hne (by simpa using hblanks)

theorem Foreign.passed_over_last (h : Foreign key line) (hline : '\n' ∉ line) (hbefore : StartsLine before) :
    field? (before ++ line) key = field? before key := by
  rw [field?_append hbefore, field?_of_not_mem hline, h.valueOn?_eq_none, Option.or_none]

theorem Foreign.passed_over (h : Foreign key line) (hline : '\n' ∉ line) (hbefore : StartsLine before)
    (after : List Char) : field? (before ++ (line ++ '\n' :: after)) key = field? (before ++ after) key := by
  rw [field?_append hbefore, field?_append hbefore, field?_append_cons hline, h.valueOn?_eq_none,
    Option.none_or]

variable {name : String} {n : Nat} {e : DeviceError}

theorem denotes_trim : Denotes (trim text) n ↔ Denotes text n := by
  rw [Denotes, trim_trim, Denotes]

theorem number_eq_error_iff {label : String} :
    number label text = .error e ↔ e = .invalidNumber label (String.ofList text) ∧ ∀ n, ¬Denotes text n := by
  rw [number]
  split
  next h => simp [Denotes, h, eq_comm]
  next n h => simp [Denotes, h]

theorem ofTexts_eq_error_iff : ofTexts front back = .error e ↔
    e = .invalidNumber "major" (String.ofList front) ∧ (∀ n, ¬Denotes front n) ∨
      e = .invalidNumber "minor" (String.ofList back) ∧ (∃ n, Denotes front n) ∧ ∀ n, ¬Denotes back n := by
  simp only [ofTexts, bind_eq_error, pure, Except.pure, reduceCtorEq, and_false, exists_false, or_false,
    exists_and_right, number_eq_error_iff, exists_number_iff]
  tauto

theorem required_eq_ok_iff :
    required name text key = .ok value ↔ ∃ rest, FirstLine text key rest ∧ trim rest = value := by
  rw [← field?_eq_some_iff, required]
  split
  next h => simp [h]
  next h => simp [h]

theorem required_eq_error_iff :
    required name text key = .error e ↔ e = .missingField name key ∧ Lacks text key := by
  rw [← field?_eq_none_iff, required]
  split
  next h => simp [h, eq_comm]
  next h => simp [h]

theorem ofUevent_eq_error_iff : ofUevent name text = .error e ↔
    e = .missingField name "MAJOR" ∧ Lacks text "MAJOR" ∨
      (e = .missingField name "MINOR" ∧ ¬Lacks text "MAJOR" ∧ Lacks text "MINOR" ∨
        ∃ front back, FirstLine text "MAJOR" front ∧ FirstLine text "MINOR" back ∧
          ofTexts (trim front) (trim back) = .error e) := by
  rw [ofUevent, bind_eq_error, required_eq_error_iff]
  simp only [bind_eq_error, required_eq_error_iff, required_eq_ok_iff, not_lacks_iff]
  refine or_congr_right ?_
  constructor
  · rintro ⟨_, ⟨front, hfront, rfl⟩, ⟨rfl, hlacks⟩ | ⟨_, ⟨back, hback, rfl⟩, herror⟩⟩
    · exact .inl ⟨rfl, ⟨front, hfront⟩, hlacks⟩
    · exact .inr ⟨front, back, hfront, hback, herror⟩
  · rintro (⟨rfl, ⟨front, hfront⟩, hlacks⟩ | ⟨front, back, hfront, hback, herror⟩)
    · exact ⟨_, ⟨front, hfront, rfl⟩, .inl ⟨rfl, hlacks⟩⟩
    · exact ⟨_, ⟨front, hfront, rfl⟩, .inr ⟨_, ⟨back, hback, rfl⟩, herror⟩⟩

theorem ofUevent_eq_ok_iff {d : DeviceId} : ofUevent name text = .ok d ↔
    ∃ front back, FirstLine text "MAJOR" front ∧ FirstLine text "MINOR" back ∧
      ofTexts (trim front) (trim back) = .ok d := by
  simp only [ofUevent, bind_eq_ok, required_eq_ok_iff]
  constructor
  · rintro ⟨_, ⟨front, hfront, rfl⟩, _, ⟨back, hback, rfl⟩, h⟩
    exact ⟨front, back, hfront, hback, h⟩
  · rintro ⟨front, back, hfront, hback, h⟩
    exact ⟨_, ⟨front, hfront, rfl⟩, _, ⟨back, hback, rfl⟩, h⟩

section Tree

variable {tree : SysTree} {content : String}

theorem exists_deviceId {major minor : Nat}
    (hcontent : tree.files.readText (ueventPath tree name) = .ok content)
    (hfront : FirstLine content.toList "MAJOR" front) (hback : FirstLine content.toList "MINOR" back)
    (hmajor : Padded front major) (hminor : Padded back minor) (hfits : DeviceId.Fits major minor) :
    ∃ d, tree.deviceId name = .ok d ∧ d.major.toNat = major ∧ d.minor.toNat = minor := by
  have hM : Denotes (trim front) major :=
    denotes_trim.mpr (denotes_iff.mpr ⟨hmajor, hfits.1.trans (by decide)⟩)
  have hm : Denotes (trim back) minor :=
    denotes_trim.mpr (denotes_iff.mpr ⟨hminor, hfits.2.trans (by decide)⟩)
  obtain ⟨d, hd⟩ := exists_ofTexts_iff.mpr ⟨major, minor, hM, hm⟩
  refine ⟨d, ?_, (reached_of_ofTexts hd hM hm).eq_iff_fits.mpr hfits⟩
  rw [deviceId_of_readText hcontent]
  exact ofUevent_eq_ok_iff.mpr ⟨front, back, hfront, hback, hd⟩

theorem deviceId_missingField_iff {other key : String}
    (hcontent : tree.files.readText (ueventPath tree name) = .ok content) :
    tree.deviceId name = .error (.missingField other key) ↔ other = name ∧
      (key = "MAJOR" ∧ Lacks content.toList "MAJOR" ∨
        key = "MINOR" ∧ ¬Lacks content.toList "MAJOR" ∧ Lacks content.toList "MINOR") := by
  rw [deviceId_of_readText hcontent, ofUevent_eq_error_iff]
  simp only [ofTexts_eq_error_iff, DeviceError.missingField.injEq, reduceCtorEq, false_and, and_false,
    or_self, exists_const, or_false]
  tauto

theorem deviceId_invalidNumber_iff {label value : String}
    (hcontent : tree.files.readText (ueventPath tree name) = .ok content) :
    tree.deviceId name = .error (.invalidNumber label value) ↔
      ∃ front back, FirstLine content.toList "MAJOR" front ∧ FirstLine content.toList "MINOR" back ∧
        (label = "major" ∧ value = String.ofList (trim front) ∧ (∀ n, ¬Denotes front n) ∨
          label = "minor" ∧ value = String.ofList (trim back) ∧ (∃ n, Denotes front n) ∧
            ∀ n, ¬Denotes back n) := by
  rw [deviceId_of_readText hcontent, ofUevent_eq_error_iff]
  simp [ofTexts_eq_error_iff, denotes_trim, and_assoc]

end Tree

/-- A key has the value that follows it on the first line that begins with it and an equals sign, and no
value if there is no such line. Lines that only look alike are passed over. A device has the numbers on the
first lines for both, if they have room; otherwise a line that is missing is told before a number that cannot
be read, and what is wrong with the major number before what is wrong with the minor one. -/
theorem first_lines_give_device :
    (∀ text key value, field? text key = some value ↔ ∃ rest, FirstLine text key rest ∧ trim rest = value) ∧
    (∀ text key, field? text key = none ↔ Lacks text key) ∧
    (∀ key line before, Foreign key line → '\n' ∉ line → StartsLine before →
      field? (before ++ line) key = field? before key ∧
        ∀ after, field? (before ++ (line ++ '\n' :: after)) key = field? (before ++ after) key) ∧
    ∀ (tree : SysTree) name content, tree.files.readText (ueventPath tree name) = .ok content →
      (∀ front back major minor, FirstLine content.toList "MAJOR" front →
        FirstLine content.toList "MINOR" back → Padded front major → Padded back minor →
        DeviceId.Fits major minor →
          ∃ d, tree.deviceId name = .ok d ∧ d.major.toNat = major ∧ d.minor.toNat = minor) ∧
      (∀ other key, tree.deviceId name = .error (.missingField other key) ↔ other = name ∧
        (key = "MAJOR" ∧ Lacks content.toList "MAJOR" ∨
          key = "MINOR" ∧ ¬Lacks content.toList "MAJOR" ∧ Lacks content.toList "MINOR")) ∧
      ∀ label value, tree.deviceId name = .error (.invalidNumber label value) ↔
        ∃ front back, FirstLine content.toList "MAJOR" front ∧ FirstLine content.toList "MINOR" back ∧
          (label = "major" ∧ value = String.ofList (trim front) ∧ (∀ n, ¬Denotes front n) ∨
            label = "minor" ∧ value = String.ofList (trim back) ∧ (∃ n, Denotes front n) ∧
              ∀ n, ¬Denotes back n) := by
  refine ⟨fun text _ _ => field?_eq_some_iff text, fun text _ => field?_eq_none_iff text, ?_, ?_⟩
  · intro key line before h hline hbefore
    exact ⟨h.passed_over_last hline hbefore, h.passed_over hline hbefore⟩
  · intro tree name content h
    exact ⟨fun _ _ _ _ => exists_deviceId h, fun _ _ => deviceId_missingField_iff h,
      fun _ _ => deviceId_invalidNumber_iff h⟩

def mixedUevent : String := "MAJORS=9\n MAJOR=7\nMINOR=+032\nMAJOR\nMAJOR= 8\t\r\nDEVNAME=sda\nMAJOR=10\n"

def mixedTree : SysTree where
  root := "/sys"
  files :=
    { nodes := [(["/", "sys"], .directory), (["/", "sys", "block"], .directory),
        (["/", "sys", "block", "sda"], .directory), (["/", "sys", "block", "sda", "uevent"], .file 0)]
      contents := #[mixedUevent.toUTF8] }

theorem first_lines_give_device_mixed :
    ∃ d, mixedTree.deviceId "sda" = .ok d ∧ d.major.toNat = 8 ∧ d.minor.toNat = 32 := by
  have hcontent : mixedTree.files.readText (ueventPath mixedTree "sda") = .ok mixedUevent := by
    apply eq_ok_of_toOption
    decide +kernel
  obtain ⟨hfield, -, -, hdevice⟩ := first_lines_give_device
  obtain ⟨hnumbers, -, -⟩ := hdevice mixedTree "sda" mixedUevent hcontent
  obtain ⟨front, hfront, hmajor⟩ := (hfield mixedUevent.toList "MAJOR" ['8']).mp (by decide +kernel)
  obtain ⟨back, hback, hminor⟩ :=
    (hfield mixedUevent.toList "MINOR" ['+', '0', '3', '2']).mp (by decide +kernel)
  have hM : Denotes front 8 := by rw [Denotes, hmajor]; decide
  have hm : Denotes back 32 := by rw [Denotes, hminor]; decide
  exact hnumbers front back 8 32 hfront hback (denotes_iff.mp hM).1 (denotes_iff.mp hm).1 (by decide)

end QuantileMonitor.Device
