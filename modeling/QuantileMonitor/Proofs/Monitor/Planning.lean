import Mathlib.Data.List.Nodup
import QuantileMonitor.Monitor.Start
import QuantileMonitor.Proofs.Outcome
import QuantileMonitor.Proofs.Poll.Iteration

/-!
# What a started monitor polls

A monitor that starts polls one source for each device that was selected, in that order and under its
number, and one group for each that the settings name. Groups are told apart by their position, devices
only by their number.
-/

namespace QuantileMonitor.Monitor

open Device Poll Ingest

variable {γ : Type}

def deviceKeys (selected : List Selected) : List EntityKey := selected.map fun d => .device d.id

def groupKeys : Nat → Nat → List EntityKey
  | _, 0 => []
  | index, n + 1 => .group index.toUInt16 :: groupKeys (index + 1) n

theorem openSource_key {files : Files} {key : EntityKey} {path : String} {source : Source}
    (h : openSource files key path = .ok source) : source.key = key := by
  rw [openSource] at h
  split at h
  · cases h
  · cases h
    rfl

-- Unfolding the look-up of a name leads into the hash of its key.
attribute [local irreducible] Names.name in
theorem openSources_cons (tree : SysTree) (d : Selected) (selected : List Selected) (n : Names) :
    openSources tree (d :: selected) n =
      let named := (seedName n d).name tree (.device d.id)
      match openSource tree.files (.device d.id) (tree.inflightPath named.1) with
      | .error cause => (.error (.depth named.1 cause), named.2)
      | .ok source =>
        ((openSources tree selected named.2).1.map (source :: ·), (openSources tree selected named.2).2) := by
  rfl

theorem openSources_keys {tree : SysTree} {selected : List Selected} {n : Names}
    {sources : List Source} (h : (openSources tree selected n).1 = .ok sources) :
    sources.map (·.key) = deviceKeys selected := by
  induction selected generalizing n sources with
  | nil =>
    cases h
    rfl
  | cons d selected ih =>
    rw [openSources_cons] at h
    dsimp only at h
    split at h
    next => cases h
    next source hopen =>
      cases hrest : (openSources tree selected ((seedName n d).name tree (.device d.id)).2).1 with
      | error e =>
        rw [hrest] at h
        cases h
      | ok rest =>
        rw [hrest] at h
        cases h
        rw [List.map_cons, openSource_key hopen, ih hrest]
        rfl

theorem length_all (n : Names) (tree : SysTree) (keys : List EntityKey) :
    (n.all tree keys).1.length = keys.length := by
  induction keys generalizing n with
  | nil => rfl
  | cons key keys ih =>
    rw [Names.all]
    dsimp only
    rw [List.length_cons, ih, List.length_cons]

theorem member_lt {names : List String} {group name : String} {i : Nat}
    (h : member names group name = .ok i) : i < names.length := by
  rw [member] at h
  split at h
  next hfound =>
    cases h
    exact (List.idxOf?_eq_some_iff.mp hfound).choose
  next => cases h

theorem members_lt {names : List String} {group : String} {wanted : List String}
    {members : List Nat} (h : wanted.mapM (member names group) = .ok members) :
    ∀ m ∈ members, m < names.length := by
  have hsteps := mapM_eq_ok_iff.mp h
  clear h
  induction hsteps with
  | nil => nofun
  | cons hfirst _ ih => exact List.forall_mem_cons.mpr ⟨member_lt hfirst, ih⟩

theorem openGroup_some {names : List String} {index : Nat} {g : DeviceGroup} {group : Poll.Group}
    (h : openGroup names index g = .ok group) :
    index < 65536 ∧ group.key = .group index.toUInt16 ∧ ∀ m ∈ group.members, m < names.length := by
  rw [openGroup, bind_eq_ok] at h
  obtain ⟨members, hmembers, h⟩ := h
  split at h
  next hindex =>
    cases h
    exact ⟨hindex, rfl, members_lt hmembers⟩
  next => cases h

theorem openGroups_some {names : List String} {index : Nat} {wanted : List DeviceGroup}
    {groups : List Poll.Group} (h : openGroups names index wanted = .ok groups) :
    groups.map (·.key) = groupKeys index wanted.length ∧
      (wanted ≠ [] → index + wanted.length ≤ 65536) ∧
      ∀ group ∈ groups, ∀ m ∈ group.members, m < names.length := by
  induction wanted generalizing index groups with
  | nil =>
    cases h
    simp [groupKeys]
  | cons g wanted ih =>
    rw [openGroups, bind_eq_ok] at h
    obtain ⟨group, hfirst, h⟩ := h
    obtain ⟨rest, hrest, h⟩ := bind_eq_ok.mp h
    cases h
    obtain ⟨hindex, hkey, hmembers⟩ := openGroup_some hfirst
    obtain ⟨hkeys, hfit, hothers⟩ := ih hrest
    refine ⟨by rw [List.map_cons, hkey, hkeys]; rfl, fun _ => ?_, ?_⟩
    · cases wanted with
      | nil => exact hindex
      | cons g' wanted =>
        have hlast := hfit (List.cons_ne_nil g' wanted)
        simp only [List.length_cons] at hlast ⊢
        omega
    · exact List.forall_mem_cons.mpr ⟨hmembers, hothers⟩

theorem mem_groupKeys {index n : Nat} {key : EntityKey} :
    key ∈ groupKeys index n ↔ ∃ i, index ≤ i ∧ i < index + n ∧ key = .group i.toUInt16 := by
  induction n generalizing index with
  | zero =>
    simp [groupKeys]
    omega
  | succ n ih =>
    rw [groupKeys, List.mem_cons, ih]
    constructor
    · rintro (rfl | ⟨i, hle, hlt, rfl⟩)
      · exact ⟨index, Nat.le_refl _, by omega, rfl⟩
      · exact ⟨i, by omega, by omega, rfl⟩
    · rintro ⟨i, hle, hlt, rfl⟩
      rcases Nat.eq_or_lt_of_le hle with rfl | hnext
      · exact .inl rfl
      · exact .inr ⟨i, hnext, by omega, rfl⟩

theorem groupKeys_nodup {index n : Nat} (h : n = 0 ∨ index + n ≤ 65536) :
    (groupKeys index n).Nodup := by
  induction n generalizing index with
  | zero => exact List.nodup_nil
  | succ n ih =>
    refine List.nodup_cons.mpr ⟨?_, ih (by omega)⟩
    intro hmem
    obtain ⟨i, hle, hlt, heq⟩ := mem_groupKeys.mp hmem
    have hnumber := congrArg UInt16.toNat (EntityKey.group.inj heq)
    simp only [Nat.toUInt16, UInt16.toNat_ofNat'] at hnumber
    omega

theorem device_not_mem_groupKeys (id : DeviceId) (index n : Nat) : .device id ∉ groupKeys index n := by
  intro hmem
  obtain ⟨i, -, -, heq⟩ := mem_groupKeys.mp hmem
  cases heq

theorem deviceKeys_nodup_iff (selected : List Selected) :
    (deviceKeys selected).Nodup ↔ (selected.map (·.id)).Nodup := by
  have hkeys : deviceKeys selected = (selected.map (·.id)).map EntityKey.device := by
    rw [List.map_map]
    rfl
  rw [hkeys]
  exact List.nodup_map_iff fun _ _ => EntityKey.device.inj

theorem keys_nodup_iff {selected : List Selected} {n : Nat} (h : n ≤ 65536) :
    (deviceKeys selected ++ groupKeys 0 n).Nodup ↔ (selected.map (·.id)).Nodup := by
  rw [List.nodup_append, deviceKeys_nodup_iff]
  constructor
  · rintro ⟨hdevices, -, -⟩
    exact hdevices
  · intro hdevices
    refine ⟨hdevices, groupKeys_nodup (.inr (by omega)), ?_⟩
    rintro key hdevice other hgroup rfl
    obtain ⟨d, -, rfl⟩ := List.mem_map.mp hdevice
    exact device_not_mem_groupKeys d.id 0 n hgroup

theorem plan_some {s : Settings} {tree : SysTree} {n : Names} {p : Plan}
    (h : (plan s tree n).1 = .ok p) :
    ∃ selected sources groups, pollTargets s tree = .ok selected ∧
      p.poller = .ofParts sources groups .all ∧ sources.map (·.key) = deviceKeys selected ∧
      groups.map (·.key) = groupKeys 0 s.groups.length ∧ s.groups.length ≤ 65536 ∧
      ∀ g ∈ groups, ∀ m ∈ g.members, m < sources.length := by
  rw [plan] at h
  split at h
  next => cases h
  next => cases h
  next selected hselected htargets =>
    cases hsources : openSources tree selected n with
    | mk result n' =>
      rw [hsources] at h
      cases result with
      | error e => cases h
      | ok sources =>
        dsimp only at h
        cases hgroups : openGroups (n'.all tree (selected.map fun d => .device d.id)).1 0 s.groups with
        | error e =>
          rw [hgroups] at h
          cases h
        | ok groups =>
          rw [hgroups] at h
          cases h
          have hkeys := openSources_keys (congrArg Prod.fst hsources)
          obtain ⟨hgroupKeys, hfit, hmembers⟩ := openGroups_some hgroups
          have hlength := congrArg List.length hkeys
          rw [List.length_map, deviceKeys, List.length_map] at hlength
          refine ⟨selected, sources, groups, htargets, rfl, hkeys, hgroupKeys, ?_, ?_⟩
          · by_cases hnone : s.groups = []
            · simp [hnone]
            · have hlast := hfit hnone
              omega
          · intro g hg m hm
            have hlt := hmembers g hg m hm
            rw [length_all, List.length_map] at hlt
            omega

/-- What is known of a monitor that has just started on some devices. -/
structure Started (s : Settings) (draws : EntityKey → γ × γ) (now : Instant)
    (selected : List Selected) (m : Monitor γ) : Prop where
  laid : m.poller.Laid
  sources : m.poller.sources.length = selected.length
  keys : m.poller.keys = deviceKeys selected ++ groupKeys 0 s.groups.length
  groups : s.groups.length ≤ 65536
  filter : m.poller.filter = .all
  registry : m.registry = m.poller.register (.empty s.strategy draws now)
  batch : ∀ b ∈ m.batch, b.waiting = #[]
  passing : m.passing = []
  iterations : m.iterations = 0
  stage : m.stage = .running

theorem ofPlan_started {s : Settings} {tree : SysTree} {n : Names} {p : Plan}
    (h : (plan s tree n).1 = .ok p) (n' : Names) (draws : EntityKey → γ × γ) (now : Instant) :
    ∃ selected, pollTargets s tree = .ok selected ∧
      Started s draws now selected (ofPlan s p n' draws now) := by
  obtain ⟨selected, sources, groups, htargets, hpoller, hsources, hgroups, hfit, hmembers⟩ :=
    plan_some h
  have hlaid : p.poller.Laid := hpoller ▸ Poller.ofParts_laid sources groups .all hmembers
  have hlength := congrArg List.length hsources
  rw [List.length_map, deviceKeys, List.length_map] at hlength
  refine ⟨selected, htargets, hlaid, ?_, ?_, hfit, ?_, rfl, ?_, rfl, rfl, rfl⟩
  · rw [ofPlan, hpoller]
    exact hlength
  · rw [ofPlan, hlaid.keys, hpoller, ← hsources, ← hgroups]
    rfl
  · rw [ofPlan, hpoller]
    rfl
  · intro b hb
    rw [ofPlan, pollBatch] at hb
    cases hperiod : s.pollPeriod with
    | some period =>
      rw [hperiod] at hb
      cases hb
    | none =>
      rw [hperiod] at hb
      cases hb
      rfl

theorem start_started {s : Settings} {files : Files} {draws : EntityKey → γ × γ} {now : Instant}
    {m : Monitor γ} (h : start s files draws now = .ok m) :
    ∃ selected, pollTargets s ⟨s.sysRoot, files⟩ = .ok selected ∧
      Started s draws now selected m := by
  rw [start, bind_eq_ok] at h
  obtain ⟨-, -, h⟩ := h
  cases hmode : s.mode with
  | block =>
    simp only [hmode] at h
    obtain ⟨targets, -, h⟩ := bind_eq_ok.mp h
    cases h
  | syscall =>
    simp only [hmode] at h
    obtain ⟨targets, -, h⟩ := bind_eq_ok.mp h
    cases h
  | queue =>
    simp only [hmode] at h
    obtain ⟨p, hplan, h⟩ := bind_eq_ok.mp h
    cases h
    exact ofPlan_started hplan _ draws now

end QuantileMonitor.Monitor
