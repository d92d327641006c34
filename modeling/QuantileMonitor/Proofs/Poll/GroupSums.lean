import QuantileMonitor.Proofs.Poll.Front
import QuantileMonitor.Proofs.Poll.Iteration
import QuantileMonitor.Proofs.Word

/-!
# Sums of groups

The depth of one member stops at the largest word, but the sum of a group does not: an iteration in which
the members of some group add up to more has no result. In every other one a group shows the sum of its
members, which is no less than any of them.
-/

namespace QuantileMonitor.Poll

def Group.readings (g : Group) (sources : List Source) (files : Files) : List Nat :=
  g.members.map ((sources.map (·.read files)).getD · 0)

namespace Poller

def pollFiles (p : Poller) (files : Files) : Option (List Sample × Poller) := p.poll (p.readings files)

def pollAll (p : Poller) (all : List Files) : Option Poller :=
  all.foldlM (fun p files => (p.pollFiles files).map (·.2)) p

theorem length_readings (p : Poller) (files : Files) : (p.readings files).length = p.sources.length := by
  simp [readings]

theorem pollAll_cons (p : Poller) (files : Files) (rest : List Files) :
    p.pollAll (files :: rest) = (p.pollFiles files).bind fun out => out.2.pollAll rest := by
  rw [pollAll, List.foldlM_cons]
  cases p.pollFiles files <;> rfl

section Iteration

variable {p : Poller} (h : p.Laid) {files : Files}
include h

theorem isSome_pollFiles_iff :
    (p.pollFiles files).isSome ↔ ∀ g ∈ p.groups, (g.readings p.sources files).sum < Word.bound := by
  rw [pollFiles, poll_eq h (p.length_readings files), Option.isSome_ite]
  exact h.fits_iff (p.length_readings files)

variable {samples : List Sample} {q : Poller} (hpoll : p.pollFiles files = some (samples, q))
include hpoll

theorem pollFiles_eq_some :
    samples = p.samples (p.readings files) ∧ q = p.showing (p.depths (p.readings files)) :=
  ((poll_eq_some_iff h (p.length_readings files)).mp hpoll).2

theorem pollFiles_laid : q.Laid := by
  obtain ⟨-, rfl⟩ := pollFiles_eq_some h hpoll
  exact showing_laid h (p.length_readings files)

theorem load_pollFiles (c : Nat) : q.gauge.load c = (p.depths (p.readings files))[c]? := by
  obtain ⟨-, rfl⟩ := pollFiles_eq_some h hpoll
  simp [Gauge.load, showing]

theorem load_member {m : Nat} (hm : m < p.sources.length) :
    q.gauge.load m = some ((p.readings files).getD m 0) := by
  have hlt : m < (p.readings files).length := by rwa [length_readings]
  rw [load_pollFiles h hpoll, depths, List.getElem?_append_left hlt]
  simp [hlt]

variable {i : Nat} {group : Group} (hgroup : p.groups[i]? = some group)
include hgroup

theorem load_members :
    group.members.map q.gauge.load = (group.readings p.sources files).map some := by
  rw [Group.readings, List.map_map]
  exact List.map_congr_left fun m hm =>
    load_member h hpoll (h.members group (List.mem_of_getElem? hgroup) m hm)

theorem load_group :
    q.gauge.load (p.sources.length + i) = some (group.readings p.sources files).sum := by
  have hmembers : group.members.filterMap ((p.readings files)[·]?) = group.readings p.sources files := by
    refine filterMap_readings fun m hm => ?_
    rw [length_readings]
    exact h.members group (List.mem_of_getElem? hgroup) m hm
  rw [load_pollFiles h hpoll, depths, List.getElem?_append_right (by simp [length_readings])]
  simp [length_readings, hgroup, hmembers]

theorem sample_group (hallows : p.filter.allows group.key = true) :
    ⟨group.key, (group.readings p.sources files).sum⟩ ∈ samples := by
  have hload := load_group h hpoll hgroup
  rw [load_pollFiles h hpoll] at hload
  have hkey : p.keys[p.sources.length + i]? = some group.key := by
    rw [h.keys, List.getElem?_append_right (by simp)]
    simp [hgroup]
  have hpair : (group.key, (group.readings p.sources files).sum) ∈
      p.keys.zip (p.depths (p.readings files)) := by
    refine List.mem_of_getElem? (?_ : _[p.sources.length + i]? = _)
    simp [List.getElem?_zip_eq_some, hkey, hload]
  rw [(pollFiles_eq_some h hpoll).1]
  exact List.mem_map.mpr ⟨_, List.mem_filter.mpr ⟨hpair, hallows⟩, rfl⟩

end Iteration

variable {p q : Poller} {all : List Files}

theorem isSome_pollAll_iff (h : p.Laid) : (p.pollAll all).isSome ↔
    ∀ files ∈ all, ∀ g ∈ p.groups, (g.readings p.sources files).sum < Word.bound := by
  induction all generalizing p with
  | nil => simp [pollAll]
  | cons files rest ih =>
    rw [pollAll_cons, List.forall_mem_cons, ← isSome_pollFiles_iff h]
    cases hpoll : p.pollFiles files with
    | none => simp
    | some out =>
      have hrest := ih (pollFiles_laid h hpoll)
      rw [(pollFiles_eq_some h hpoll).2] at hrest
      rw [Option.bind_some, (pollFiles_eq_some h hpoll).2, hrest, Option.isSome_some]
      exact (and_iff_right rfl).symm

theorem pollAll_eq_some (h : p.Laid) (hrun : p.pollAll all = some q) :
    q.Laid ∧ ∃ depths, q = p.showing depths := by
  induction all generalizing p with
  | nil =>
    cases hrun
    exact ⟨h, q.gauge.cells.toList, rfl⟩
  | cons files rest ih =>
    rw [pollAll_cons] at hrun
    obtain ⟨⟨samples, next⟩, hpoll, hrest⟩ := Option.bind_eq_some_iff.mp hrun
    obtain ⟨hlaid, depths, hq⟩ := ih (pollFiles_laid h hpoll) hrest
    rw [(pollFiles_eq_some h hpoll).2] at hq
    exact ⟨hlaid, depths, hq⟩

end Poller

/-- Iterations go on exactly as long as the members of every group add up to a word, which is exactly if
adding them up one after another never passes the largest one. After each of them a group shows, in its cell
and in its sample, the sum of what its members show, and so no less than any of them. The sum is a word if
no member has more than its share of one. -/
theorem group_depth_exact_iff (sources : List Source) (groups : List Group) (filter : Ingest.Filter)
    (hmembers : ∀ g ∈ groups, ∀ m ∈ g.members, m < sources.length) (earlier : List Files) :
    let start := Poller.ofParts sources groups filter
    let depths := fun (files : Files) (g : Group) => g.readings sources files
    ((start.pollAll earlier).isSome ↔
        ∀ files ∈ earlier, ∀ g ∈ groups, (depths files g).sum < Word.bound) ∧
      (∀ p, start.pollAll earlier = some p → ∀ files,
        ((p.pollFiles files).isSome ↔ ∀ g ∈ groups, (depths files g).sum < Word.bound) ∧
        ∀ samples q, p.pollFiles files = some (samples, q) → ∀ i group, groups[i]? = some group →
          let depth := (depths files group).sum
          group.members.map q.gauge.load = (depths files group).map some ∧
            q.gauge.load (sources.length + i) = some depth ∧
            (filter.allows group.key = true → ⟨group.key, depth⟩ ∈ samples) ∧
            ∀ m ∈ group.members, ∃ d ≤ depth, q.gauge.load m = some d) ∧
      ∀ files, ∀ g ∈ groups,
        (Word.sum? (depths files g) = none ↔ Word.bound ≤ (depths files g).sum) ∧
        ((∀ d ∈ depths files g, (depths files g).length * d < Word.bound) →
          (depths files g).sum < Word.bound) := by
  intro start depths
  have hlaid := Poller.ofParts_laid sources groups filter hmembers
  refine ⟨Poller.isSome_pollAll_iff hlaid, ?_, fun files g _ =>
    ⟨Word.sum?_eq_none_iff _, Word.sum_lt_of_shares⟩⟩
  intro p hp files
  obtain ⟨hlaid', shown, rfl⟩ := Poller.pollAll_eq_some hlaid hp
  refine ⟨Poller.isSome_pollFiles_iff hlaid', ?_⟩
  intro samples q hpoll i group hgroup depth
  have hloads := Poller.load_members hlaid' hpoll hgroup
  refine ⟨hloads, Poller.load_group hlaid' hpoll hgroup, Poller.sample_group hlaid' hpoll hgroup, ?_⟩
  intro m hm
  obtain ⟨d, hd, hload⟩ : ∃ d ∈ depths files group, some d = q.gauge.load m := by
    have hin := List.mem_map_of_mem (f := q.gauge.load) hm
    rw [hloads] at hin
    exact List.mem_map.mp hin
  exact ⟨d, List.le_sum_of_mem hd, hload.symm⟩

def pairSources : List Source := [⟨.device ⟨8388608⟩, .file 0⟩, ⟨.device ⟨8388624⟩, .file 1⟩]

def pairGroup : Group := ⟨.group 0, [0, 1]⟩

def pairFiles (first second : ByteArray) : Files :=
  ⟨[(["a"], .file 0), (["b"], .file 1)], #[first, second]⟩

theorem pairGroup_members : ∀ g ∈ [pairGroup], ∀ m ∈ g.members, m < pairSources.length := by decide

theorem pair_readings {first second : List Char} (hfirst : first.utf8Encode.size ≤ readSize)
    (hsecond : second.utf8Encode.size ≤ readSize) :
    pairGroup.readings pairSources (pairFiles first.utf8Encode second.utf8Encode) =
      [depthOfText first, depthOfText second] := by
  have hread : ∀ (key : EntityKey) (node : Node) (text : List Char), text.utf8Encode.size ≤ readSize →
      (pairFiles first.utf8Encode second.utf8Encode).content node = .ok text.utf8Encode →
      Source.read (pairFiles first.utf8Encode second.utf8Encode) ⟨key, node⟩ = depthOfText text := by
    intro key node text hshort hcontent
    rw [read_eq hcontent, seen_of_short hshort, depthOfBytes_utf8Encode]
  simp [Group.readings, pairGroup, pairSources, hread _ (.file 0) first hfirst rfl,
    hread _ (.file 1) second hsecond rfl]

theorem group_depth_exact_iff_pair :
    let files := pairFiles "3 4\n".toList.utf8Encode "18446744073709551608 0\n".toList.utf8Encode
    (∀ g ∈ [pairGroup], ∀ m ∈ g.members, m < pairSources.length) ∧
      ∃ samples q, (Poller.ofParts pairSources [pairGroup] .all).pollFiles files = some (samples, q) ∧
        q.gauge.load 2 = some 18446744073709551615 ∧
        ⟨.group 0, 18446744073709551615⟩ ∈ samples := by
  intro files
  obtain ⟨-, hnext, -⟩ := group_depth_exact_iff pairSources [pairGroup] .all pairGroup_members []
  obtain ⟨hsome, hshown⟩ := hnext _ rfl files
  have hreadings : pairGroup.readings pairSources files = [7, 18446744073709551608] := by
    have hdepths : depthOfText "3 4\n".toList = 7 ∧
        depthOfText "18446744073709551608 0\n".toList = 18446744073709551608 := by decide +kernel
    rw [pair_readings (by decide +kernel) (by decide +kernel), hdepths.1, hdepths.2]
  have hword : ∀ g ∈ [pairGroup], (g.readings pairSources files).sum < Word.bound := by
    rw [List.forall_mem_singleton, hreadings]
    decide
  obtain ⟨⟨samples, q⟩, hpoll⟩ := Option.isSome_iff_exists.mp (hsome.mpr hword)
  obtain ⟨-, hload, hsample, -⟩ := hshown samples q hpoll 0 pairGroup rfl
  simp only [hreadings] at hload hsample
  exact ⟨pairGroup_members, samples, q, hpoll, hload, hsample rfl⟩

/-- One member shows the largest word and the other one more, and their group has no depth. -/
theorem group_depth_overflows :
    let files := pairFiles "18446744073709551615 0\n".toList.utf8Encode "1 0\n".toList.utf8Encode
    pairGroup.readings pairSources files = [18446744073709551615, 1] ∧
      Word.sum? (pairGroup.readings pairSources files) = none ∧
      (Poller.ofParts pairSources [pairGroup] .all).pollFiles files = none := by
  intro files
  have hreadings : pairGroup.readings pairSources files = [18446744073709551615, 1] := by
    have hdepths : depthOfText "18446744073709551615 0\n".toList = 18446744073709551615 ∧
        depthOfText "1 0\n".toList = 1 := by decide +kernel
    rw [pair_readings (by decide +kernel) (by decide +kernel), hdepths.1, hdepths.2]
  have hlaid := Poller.ofParts_laid pairSources [pairGroup] .all pairGroup_members
  refine ⟨hreadings, by rw [hreadings]; decide, ?_⟩
  rw [← Option.not_isSome_iff_eq_none, Poller.isSome_pollFiles_iff hlaid]
  intro hwords
  have hword : (pairGroup.readings pairSources files).sum < Word.bound :=
    hwords pairGroup (List.mem_singleton_self _)
  rw [hreadings] at hword
  exact absurd hword (by decide)

end QuantileMonitor.Poll
