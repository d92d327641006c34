import QuantileMonitor.Proofs.Device.SyscallList
import QuantileMonitor.Proofs.Ingest.Filtering
import QuantileMonitor.Proofs.Monitor.Polling

/-!
# What the settings select

A list of syscalls keeps those that it names and no others, unless all its items are blank: such a list
passes the check and keeps everything. A text that names no device leaves the tracked devices to measure;
for queue depths that holds of blank texts only, and with a comma in it such a text selects nothing.
-/

namespace QuantileMonitor.Monitor

open Device Ingest

theorem checkSyscalls_of_check {s : Settings} (h : s.check = .ok ()) : s.checkSyscalls = .ok () := by
  simp only [Settings.check, bind_eq_ok] at h
  obtain ⟨-, -, -, -, -, -, -, -, h⟩ := h
  split at h
  next =>
    obtain ⟨_, hthrow, _⟩ := bind_eq_ok.mp h
    cases hthrow
  next =>
    simp only [bind_eq_ok] at h
    obtain ⟨-, -, -, -, -, -, -, -, _, hsyscalls, -⟩ := h
    exact hsyscalls

theorem ofItems_of_check {s : Settings} (hmode : s.mode = .syscall) (hcheck : s.check = .ok ()) :
    ∃ numbers, Syscall.ofItems s.syscalls = .ok numbers := by
  have h := checkSyscalls_of_check hcheck
  rw [Settings.checkSyscalls, if_pos hmode] at h
  split at h
  next => cases h
  next =>
    split at h
    next => cases h
    next numbers hnumbers => exact ⟨numbers, hnumbers⟩

theorem allows_syscalls (numbers : List UInt32) (n : UInt32) :
    (Filter.ofKeys (numbers.map .syscall)).allows (.syscall n) = true ↔ numbers = [] ∨ n ∈ numbers := by
  rw [Filter.allows_ofKeys]
  simp

/-- Settings for syscalls that pass the check keep exactly the syscalls that the list names, and hand some
numbers on to be traced, if and only if not all items of the list are blank. -/
theorem syscallTargets_keep_iff {s : Settings} (hmode : s.mode = .syscall) (hcheck : s.check = .ok ()) :
    ∃ t, syscallTargets s = .ok t ∧
      (∀ n, n ∈ t.numbers ↔ Syscall.Listed s.syscalls n) ∧
      (∀ n, t.filter.allows (.syscall n) = true ↔ t.numbers = [] ∨ Syscall.Listed s.syscalls n) ∧
      ((∀ n, t.filter.allows (.syscall n) = true ↔ Syscall.Listed s.syscalls n) ↔
        ∃ item ∈ s.syscalls, Text.trim item.toList ≠ []) ∧
      (t.numbers ≠ [] ↔ ∃ item ∈ s.syscalls, Text.trim item.toList ≠ []) := by
  obtain ⟨numbers, hnumbers⟩ := ofItems_of_check hmode hcheck
  have hmem := Syscall.mem_ofItems hnumbers
  have hne := Syscall.ofItems_ne_nil_iff hnumbers
  have hallows : ∀ n, (Filter.ofKeys (numbers.map .syscall)).allows (.syscall n) = true ↔
      numbers = [] ∨ Syscall.Listed s.syscalls n := by
    intro n
    rw [allows_syscalls, hmem]
  refine ⟨⟨.syscall, numbers, .ofKeys (numbers.map .syscall)⟩, ?_, hmem, hallows, ?_, hne⟩
  · rw [syscallTargets, hnumbers]
  · rw [← hne]
    constructor
    · rintro hkeep rfl
      have hzero := (hkeep 0).mp ((hallows 0).mpr (.inl rfl))
      exact List.not_mem_nil ((hmem 0).mpr hzero)
    · intro hsome n
      rw [hallows]
      simp [hsome]

def someSyscalls : Settings := { mode := .syscall, syscalls := [" ", " fsync ", "+74", "1"] }

theorem syscallTargets_keep_some :
    someSyscalls.mode = .syscall ∧ someSyscalls.check = .ok () ∧
      ∃ t, syscallTargets someSyscalls = .ok t ∧ t.numbers ≠ [] ∧
        ∀ n, t.filter.allows (.syscall n) = true ↔ Syscall.Listed someSyscalls.syscalls n := by
  have hcheck : someSyscalls.check = .ok () := rfl
  obtain ⟨t, ht, -, -, hkeep, hsome⟩ := syscallTargets_keep_iff (s := someSyscalls) rfl hcheck
  have hitem : ∃ item ∈ someSyscalls.syscalls, Text.trim item.toList ≠ [] :=
    ⟨"1", by simp [someSyscalls], by decide⟩
  exact ⟨rfl, hcheck, t, ht, hsome.mpr hitem, hkeep.mpr hitem⟩

def blankSyscall : Settings := { mode := .syscall, syscalls := [" "] }

/-- A single blank item passes the check, names no syscall and lets all of them through. -/
theorem blankSyscall_keeps_all :
    blankSyscall.mode = .syscall ∧ blankSyscall.check = .ok () ∧
      ∃ t, syscallTargets blankSyscall = .ok t ∧ t.numbers = [] ∧
        t.filter.allows (.syscall 0) = true ∧ ¬ Syscall.Listed blankSyscall.syscalls 0 := by
  refine ⟨rfl, rfl, ⟨.syscall, [], .ofKeys []⟩, rfl, rfl, rfl, ?_⟩
  rintro ⟨item, hitem, hdenoted⟩
  obtain rfl : item = " " := by simpa [blankSyscall] using hitem
  rw [Syscall.denoted?_of_blank (by decide)] at hdenoted
  cases hdenoted

theorem select_of_blank_parts {spec : String}
    (h : ∀ part ∈ Text.splitOn ',' spec.toList, Text.trim part = []) (tree : SysTree) :
    select tree spec = .ok [] := by
  have hparts : parts spec = [] := by
    rw [parts, List.filter_eq_nil_iff]
    intro part hpart
    obtain ⟨raw, hraw, rfl⟩ := List.mem_map.mp hpart
    simp [h raw hraw]
  rw [select, hparts]
  rfl

theorem pollTargets_of_blank {s : Settings} (h : Text.trim s.devices.toList = []) (tree : SysTree) :
    pollTargets s tree = trackedDevices s tree := by
  rw [pollTargets, h]
  rfl

theorem pollTargets_of_comma {s : Settings}
    (h : ∀ part ∈ Text.splitOn ',' s.devices.toList, Text.trim part = [])
    (hcomma : ',' ∈ s.devices.toList) (tree : SysTree) : pollTargets s tree = .ok [] := by
  have hne := Text.trim_ne_nil_of_comma hcomma
  rw [pollTargets, if_neg (by simpa using hne), selectedDevices, select_of_blank_parts h]
  rfl

theorem blockTargets_of_blank_parts {s : Settings}
    (h : ∀ part ∈ Text.splitOn ',' s.devices.toList, Text.trim part = [])
    (hprefixes : s.devicePrefixes ≠ []) (tree : SysTree) :
    blockTargets s tree = (trackedDevices s tree).map fun tracked =>
      ⟨.block, [], (Filter.ofKeys []).withTracked (tracked.map (·.id))⟩ := by
  have hsome : s.devicePrefixes.isEmpty = false := by simpa using hprefixes
  rw [blockTargets, selectedDevices, select_of_blank_parts h]
  cases htracked : trackedDevices s tree with
  | error e => simp [Except.mapError, bind, Except.bind, hsome, Except.map]
  | ok tracked =>
    simp [Except.mapError, bind, Except.bind, hsome, Except.map, pure, Except.pure]

/-- With all parts blank, block devices are filtered by the tracked set. Queue depths are polled of the
tracked devices only if the text has no comma; otherwise nothing is left to poll and the monitor does not
start. -/
theorem blank_parts_targets {s : Settings} (tree : SysTree)
    (hblank : ∀ part ∈ Text.splitOn ',' s.devices.toList, Text.trim part = [])
    (hprefixes : s.devicePrefixes ≠ []) :
    pollTargets { s with devices := "" } tree = trackedDevices s tree ∧
      (pollTargets s tree = pollTargets { s with devices := "" } tree ↔
        ',' ∉ s.devices.toList ∨ trackedDevices s tree = .ok []) ∧
      (',' ∈ s.devices.toList → ∀ n, (plan s tree n).1 = .error (.noDevices tree.root)) ∧
      (∀ tracked, trackedDevices s tree = .ok tracked → ∃ t, blockTargets s tree = .ok t ∧
        t.numbers = [] ∧ ∀ id, t.filter.allows (.device id) = true ↔ id ∈ tracked.map (·.id)) ∧
      ∀ e, trackedDevices s tree = .error e → blockTargets s tree = .error e := by
  have hempty : pollTargets { s with devices := "" } tree = trackedDevices s tree :=
    pollTargets_of_blank (s := { s with devices := "" }) rfl tree
  have hblock := blockTargets_of_blank_parts hblank hprefixes tree
  refine ⟨hempty, ?_, ?_, ?_, ?_⟩
  · rw [hempty]
    by_cases hcomma : ',' ∈ s.devices.toList
    · rw [pollTargets_of_comma hblank hcomma]
      simp [hcomma, eq_comm]
    · have hall : Text.trim s.devices.toList = [] :=
        hblank _ (by simp [Text.splitOn_of_not_mem hcomma])
      simp [hcomma, pollTargets_of_blank hall]
  · intro hcomma n
    rw [plan, pollTargets_of_comma hblank hcomma]
  · intro tracked htracked
    rw [htracked] at hblock
    exact ⟨_, hblock, rfl, Filter.allows_withTracked _⟩
  · intro e htracked
    rw [htracked] at hblock
    exact hblock

def blankParts : Settings := { mode := .queue, devices := " ,\t," }

theorem blankParts_tracked : trackedDevices blankParts ⟨"/sys", diskTree⟩ = .ok [⟨"sda", disk⟩] := by
  apply eq_ok_of_toOption
  decide +kernel

theorem blank_parts_targets_disk :
    (∀ part ∈ Text.splitOn ',' blankParts.devices.toList, Text.trim part = []) ∧
      blankParts.devicePrefixes ≠ [] ∧
      (plan blankParts ⟨"/sys", diskTree⟩ (.ofGroups [])).1 = .error (.noDevices "/sys") ∧
      ∃ t, blockTargets blankParts ⟨"/sys", diskTree⟩ = .ok t ∧
        t.filter.allows (.device disk) = true ∧ t.filter.allows (.device ⟨0⟩) = false := by
  have hblank : ∀ part ∈ Text.splitOn ',' blankParts.devices.toList, Text.trim part = [] := by decide
  have hprefixes : blankParts.devicePrefixes ≠ [] := by decide
  obtain ⟨-, -, hplan, hblock, -⟩ := blank_parts_targets ⟨"/sys", diskTree⟩ hblank hprefixes
  obtain ⟨t, ht, -, hallows⟩ := hblock _ blankParts_tracked
  refine ⟨hblank, hprefixes, hplan (by decide) _, t, ht, (hallows disk).mpr (by simp), ?_⟩
  rw [Bool.eq_false_iff]
  intro hzero
  have hmem := (hallows ⟨0⟩).mp hzero
  simp [disk] at hmem

/-- With blank parts in place of no text a disk is there and tracked, but not polled. -/
theorem blankParts_polls_nothing :
    (∀ part ∈ Text.splitOn ',' blankParts.devices.toList, Text.trim part = []) ∧
      blankParts.devicePrefixes ≠ [] ∧
      pollTargets { blankParts with devices := "" } ⟨"/sys", diskTree⟩ = .ok [⟨"sda", disk⟩] ∧
      pollTargets blankParts ⟨"/sys", diskTree⟩ = .ok [] := by
  have hblank : ∀ part ∈ Text.splitOn ',' blankParts.devices.toList, Text.trim part = [] := by decide
  refine ⟨hblank, by decide, ?_, pollTargets_of_comma hblank (by decide) _⟩
  rw [pollTargets_of_blank (s := { blankParts with devices := "" }) rfl]
  exact blankParts_tracked

end QuantileMonitor.Monitor
