import Mathlib.Data.List.Basic
import Mathlib.Tactic.Common
import QuantileMonitor.Poll.Poller
import QuantileMonitor.Proofs.Word

/-!
# One iteration

The cells after an iteration hold the readings of the sources and then the sums of the groups, whatever
they held before, and its samples are the kept entities with their cells in that order. An iteration is
therefore a function of its readings. It fails exactly if the sum of some group is no word.
-/

namespace QuantileMonitor

namespace Gauge

def storeFrom (g : Gauge) : Nat → List Nat → Gauge
  | _, [] => g
  | cell, depth :: depths => (g.store cell depth).storeFrom (cell + 1) depths

@[simp] theorem keys_store (g : Gauge) (i v : Nat) : (g.store i v).keys = g.keys := rfl

@[simp] theorem size_store (g : Gauge) (i v : Nat) : (g.store i v).cells.size = g.cells.size := by
  simp [store]

theorem load_store (g : Gauge) (i v j : Nat) :
    (g.store i v).load j = if i = j ∧ i < g.cells.size then some v else g.load j := by
  simp only [load, store, Array.getElem?_setIfInBounds]
  by_cases hij : i = j
  · subst hij
    by_cases hi : i < g.cells.size
    · simp [hi]
    · simp [hi]
  · simp [hij]

@[simp] theorem keys_storeFrom (g : Gauge) (cell : Nat) (depths : List Nat) :
    (g.storeFrom cell depths).keys = g.keys := by
  induction depths generalizing g cell with
  | nil => rfl
  | cons depth depths ih => exact ih (g.store cell depth) (cell + 1)

@[simp] theorem size_storeFrom (g : Gauge) (cell : Nat) (depths : List Nat) :
    (g.storeFrom cell depths).cells.size = g.cells.size := by
  induction depths generalizing g cell with
  | nil => rfl
  | cons depth depths ih => rw [storeFrom, ih, size_store]

theorem storeFrom_append (g : Gauge) (cell : Nat) (depths more : List Nat) :
    g.storeFrom cell (depths ++ more) =
      (g.storeFrom cell depths).storeFrom (cell + depths.length) more := by
  induction depths generalizing g cell with
  | nil => rfl
  | cons depth depths ih =>
    rw [List.cons_append, storeFrom, ih, storeFrom, List.length_cons, Nat.add_assoc,
      Nat.add_comm 1]

theorem load_storeFrom_of_lt {i cell : Nat} (h : i < cell) (g : Gauge) (depths : List Nat) :
    (g.storeFrom cell depths).load i = g.load i := by
  induction depths generalizing g cell with
  | nil => rfl
  | cons depth depths ih =>
    rw [storeFrom, ih (by omega), load_store, if_neg (by omega)]

theorem load_storeFrom (g : Gauge) {cell : Nat} {depths : List Nat}
    (h : cell + depths.length ≤ g.cells.size) (j : Nat) (hj : j < depths.length) :
    (g.storeFrom cell depths).load (cell + j) = depths[j]? := by
  induction depths generalizing g cell j with
  | nil => exact absurd hj (Nat.not_lt_zero j)
  | cons depth depths ih =>
    rw [List.length_cons] at h hj
    cases j with
    | zero =>
      rw [storeFrom, load_storeFrom_of_lt (by omega), load_store, if_pos ⟨rfl, by omega⟩]
      rfl
    | succ j =>
      rw [storeFrom, Nat.add_comm j 1, ← Nat.add_assoc, ih _ (by rw [size_store]; omega) j (by omega),
        Nat.add_comm 1 j, List.getElem?_cons_succ]

theorem storeFrom_all {g : Gauge} {depths : List Nat} (h : depths.length = g.cells.size) :
    g.storeFrom 0 depths = ⟨g.keys, depths.toArray⟩ := by
  have hcells : (g.storeFrom 0 depths).cells = depths.toArray := by
    refine Array.ext (by simp [h]) fun i hi hi' => ?_
    have hload : (g.storeFrom 0 depths).load (0 + i) = depths[i]? :=
      load_storeFrom g (by omega) i (by simpa using hi')
    rw [Nat.zero_add, load, Array.getElem?_eq_getElem hi, List.getElem?_eq_getElem (by simpa using hi')]
      at hload
    simpa using hload
  rw [← keys_storeFrom g 0 depths, ← hcells]

end Gauge

namespace Poll.Poller

open Ingest

def kept (filter : Filter) (depths : List (EntityKey × Nat)) : List Sample :=
  (depths.filter fun d => filter.allows d.1).map fun d => ⟨d.1, d.2⟩

def depths (p : Poller) (readings : List Nat) : List Nat :=
  readings ++ p.groups.map fun g => (g.members.filterMap (readings[·]?)).sum

/-- The sums of all groups are words. -/
def Fits (p : Poller) (readings : List Nat) : Prop :=
  ∀ g ∈ p.groups, (g.members.filterMap (readings[·]?)).sum < Word.bound

instance (p : Poller) (readings : List Nat) : Decidable (p.Fits readings) :=
  inferInstanceAs (Decidable (∀ g ∈ p.groups, _))

def samples (p : Poller) (readings : List Nat) : List Sample :=
  kept p.filter (p.keys.zip (p.depths readings))

def showing (p : Poller) (depths : List Nat) : Poller :=
  { p with gauge := ⟨p.gauge.keys, depths.toArray⟩ }

/-- A cell for each source and then for each group, whose members are sources. -/
structure Laid (p : Poller) : Prop where
  keys : p.keys = p.sources.map (·.key) ++ p.groups.map (·.key)
  cells : p.gauge.cells.size = p.sources.length + p.groups.length
  members : ∀ g ∈ p.groups, ∀ m ∈ g.members, m < p.sources.length

theorem kept_append (filter : Filter) (depths more : List (EntityKey × Nat)) :
    kept filter (depths ++ more) = kept filter depths ++ kept filter more := by
  rw [kept, List.filter_append, List.map_append, kept, kept]

theorem kept_cons (filter : Filter) (d : EntityKey × Nat) (depths : List (EntityKey × Nat)) :
    kept filter (d :: depths) = kept filter [d] ++ kept filter depths := kept_append filter [d] depths

theorem publish_eq (filter : Filter) (key : EntityKey) (cell depth : Nat) (g : Gauge) :
    publish filter key cell depth g = (kept filter [(key, depth)], g.store cell depth) := by
  rw [publish, kept]
  cases hallows : filter.allows key <;> simp [hallows]

theorem publishSources_eq (filter : Filter) (pairs : List (Source × Nat)) (cell : Nat) (g : Gauge) :
    publishSources filter pairs cell g =
      (kept filter (pairs.map fun pair => (pair.1.key, pair.2)),
        g.storeFrom cell (pairs.map (·.2))) := by
  induction pairs generalizing cell g with
  | nil => rfl
  | cons pair pairs ih =>
    obtain ⟨s, depth⟩ := pair
    rw [publishSources, publish_eq]
    dsimp only
    rw [ih, ← kept_cons]
    rfl

theorem entities_kept (filter : Filter) (depths : List (EntityKey × Nat)) :
    (kept filter depths).map (·.entity) = (depths.map (·.1)).filter filter.allows := by
  rw [kept, List.map_map, List.filter_map]
  rfl

theorem publishGroups_cons_eq_some {filter : Filter} {group : Group} {groups : List Group} {cell : Nat}
    {g : Gauge} {out : List Sample × Gauge}
    (h : publishGroups filter (group :: groups) cell g = some out) :
    ∃ depth samples g', publishGroups filter groups (cell + 1) (g.store cell depth) = some (samples, g') ∧
      out = (kept filter [(group.key, depth)] ++ samples, g') := by
  rw [publishGroups, Option.bind_eq_bind, Option.bind_eq_some_iff] at h
  obtain ⟨depth, -, h⟩ := h
  rw [publish_eq] at h
  obtain ⟨⟨samples, g'⟩, hrest, hout⟩ := Option.bind_eq_some_iff.mp h
  exact ⟨depth, samples, g', hrest, (Option.some.inj hout).symm⟩

theorem entities_publishGroups {filter : Filter} {groups : List Group} {cell : Nat} {g g' : Gauge}
    {samples : List Sample} (h : publishGroups filter groups cell g = some (samples, g')) :
    samples.map (·.entity) = (groups.map (·.key)).filter filter.allows := by
  induction groups generalizing cell g samples with
  | nil =>
    cases h
    rfl
  | cons group groups ih =>
    obtain ⟨depth, rest, _, hrest, hout⟩ := publishGroups_cons_eq_some h
    cases hout
    rw [List.map_append, ih hrest, entities_kept, ← List.filter_append]
    rfl

def polled (p : Poller) : List EntityKey :=
  (p.sources.map (·.key) ++ p.groups.map (·.key)).filter p.filter.allows

theorem polled_ofParts (sources : List Source) (groups : List Group) :
    (ofParts sources groups .all).polled = (ofParts sources groups .all).keys := by
  have hall : ∀ keys : List EntityKey, keys.filter Filter.all.allows = keys :=
    fun keys => List.filter_eq_self.mpr fun _ _ => rfl
  simp [polled, keys, ofParts, Gauge.ofKeys, hall]

theorem length_keys_ofParts (sources : List Source) (groups : List Group) (filter : Filter) :
    (ofParts sources groups filter).keys.length = (ofParts sources groups filter).entityCount := by
  simp [keys, ofParts, Gauge.ofKeys, entityCount]

theorem entities_poll {p q : Poller} {readings : List Nat} {samples : List Sample}
    (hpoll : p.poll readings = some (samples, q)) (hreadings : readings.length = p.sources.length) :
    samples.map (·.entity) = p.polled ∧ ∃ gauge, q = { p with gauge } := by
  have hkeys : ((p.sources.zip readings).map fun pair => (pair.1.key, pair.2)).map (·.1) =
      p.sources.map (·.key) := by
    conv_rhs => rw [← List.map_fst_zip (Nat.le_of_eq hreadings.symm), List.map_map]
    rw [List.map_map]
    rfl
  rw [poll, publishSources_eq] at hpoll
  obtain ⟨⟨second, g⟩, hgroups, hout⟩ := Option.bind_eq_some_iff.mp hpoll
  cases hout
  refine ⟨?_, g, rfl⟩
  rw [List.map_append, entities_kept, hkeys, entities_publishGroups hgroups, ← List.filter_append, polled]

theorem publishGroups_eq (filter : Filter) {groups : List Group} {cell : Nat}
    (hmembers : ∀ group ∈ groups, ∀ m ∈ group.members, m < cell) (g : Gauge) :
    publishGroups filter groups cell g =
      let sums := groups.map fun group => (group.members.filterMap g.load).sum
      if ∀ group ∈ groups, (group.members.filterMap g.load).sum < Word.bound then
        some (kept filter ((groups.map (·.key)).zip sums), g.storeFrom cell sums)
      else none := by
  suffices hsuffices : ∀ h : Gauge, ∀ first ≥ cell, (∀ i < cell, h.load i = g.load i) →
      publishGroups filter groups first h =
        let sums := groups.map fun group => (group.members.filterMap g.load).sum
        if ∀ group ∈ groups, (group.members.filterMap g.load).sum < Word.bound then
          some (kept filter ((groups.map (·.key)).zip sums), h.storeFrom first sums)
        else none from
    hsuffices g cell (Nat.le_refl cell) fun _ _ => rfl
  intro h first hle hloads
  induction groups generalizing h first with
  | nil =>
    rw [if_pos nofun]
    rfl
  | cons group groups ih =>
    have hfirst : group.members.filterMap h.load = group.members.filterMap g.load :=
      List.filterMap_congr fun m hm => hloads m (hmembers group List.mem_cons_self m hm)
    have hrest := ih (fun group' hgroup => hmembers group' (List.mem_cons_of_mem _ hgroup))
      (h.store first (group.members.filterMap g.load).sum) (first + 1) (by omega) (by
        intro i hi
        rw [Gauge.load_store, if_neg (by omega), hloads i hi])
    rw [publishGroups, hfirst, Word.sum?_eq]
    simp only [List.forall_mem_cons]
    by_cases hsum : (group.members.filterMap g.load).sum < Word.bound
    · simp only [hsum, if_true, true_and, Option.bind_eq_bind, Option.bind_some, publish_eq, hrest]
      split_ifs
      · rw [Option.bind_some, ← kept_cons]
        rfl
      · rfl
    · simp [hsum]

theorem poll_eq {p : Poller} (h : p.Laid) {readings : List Nat}
    (hreadings : readings.length = p.sources.length) :
    p.poll readings =
      if p.Fits readings then some (p.samples readings, p.showing (p.depths readings)) else none := by
  have hzip : (p.sources.zip readings).map (·.2) = readings :=
    List.map_snd_zip (by omega)
  have hkeys : (p.sources.zip readings).map (fun pair => (pair.1.key, pair.2)) =
      (p.sources.map (·.key)).zip readings := by
    rw [List.zip_map_left]
    rfl
  have hload : ∀ m < p.sources.length, (p.gauge.storeFrom 0 readings).load m = readings[m]? := by
    intro m hm
    have hcells := h.cells
    have hm' : (p.gauge.storeFrom 0 readings).load (0 + m) = readings[m]? :=
      p.gauge.load_storeFrom (by omega) m (by omega)
    rwa [Nat.zero_add] at hm'
  have hparts : ∀ g ∈ p.groups, g.members.filterMap (p.gauge.storeFrom 0 readings).load =
      g.members.filterMap (readings[·]?) :=
    fun g hg => List.filterMap_congr fun m hm => hload m (h.members g hg m hm)
  have hsums : (p.groups.map fun g => (g.members.filterMap (p.gauge.storeFrom 0 readings).load).sum) =
      p.groups.map fun g => (g.members.filterMap (readings[·]?)).sum :=
    List.map_congr_left fun g hg => congrArg List.sum (hparts g hg)
  have hfits : (∀ g ∈ p.groups,
      (g.members.filterMap (p.gauge.storeFrom 0 readings).load).sum < Word.bound) ↔ p.Fits readings :=
    forall₂_congr fun g hg => by rw [hparts g hg]
  have hlength : (p.depths readings).length = p.gauge.cells.size := by
    rw [depths, List.length_append, List.length_map, hreadings, h.cells]
  rw [poll, publishSources_eq, hzip, hkeys]
  dsimp only
  rw [publishGroups_eq p.filter h.members]
  dsimp only
  simp only [hfits, hsums]
  split_ifs
  · rw [Option.bind_eq_bind, Option.bind_some, ← hreadings, ← Nat.zero_add readings.length,
      ← Gauge.storeFrom_append, ← kept_append, ← List.zip_append (by rw [List.length_map, hreadings]),
      ← h.keys, ← depths, Gauge.storeFrom_all hlength]
    rfl
  · rfl

theorem poll_eq_some_iff {p q : Poller} (h : p.Laid) {readings : List Nat}
    (hreadings : readings.length = p.sources.length) {samples : List Sample} :
    p.poll readings = some (samples, q) ↔
      p.Fits readings ∧ samples = p.samples readings ∧ q = p.showing (p.depths readings) := by
  rw [poll_eq h hreadings, Option.ite_none_right_eq_some, Option.some.injEq, Prod.mk.injEq,
    @eq_comm _ samples, @eq_comm _ q]

theorem filterMap_readings {members readings : List Nat} (h : ∀ m ∈ members, m < readings.length) :
    members.filterMap (readings[·]?) = members.map (readings.getD · 0) := by
  rw [← List.filterMap_eq_map]
  refine List.filterMap_congr fun m hm => ?_
  have hlt := h m hm
  simp [hlt]

theorem Laid.fits_iff {p : Poller} (h : p.Laid) {readings : List Nat}
    (hreadings : readings.length = p.sources.length) :
    p.Fits readings ↔ ∀ g ∈ p.groups, (g.members.map (readings.getD · 0)).sum < Word.bound := by
  refine forall₂_congr fun g hg => ?_
  rw [filterMap_readings fun m hm => hreadings ▸ h.members g hg m hm]

theorem exists_fits (p : Poller) : ∃ readings, readings.length = p.sources.length ∧ p.Fits readings := by
  refine ⟨List.replicate p.sources.length 0, List.length_replicate, fun g _ => ?_⟩
  have hzero : (g.members.filterMap ((List.replicate p.sources.length 0)[·]?)).sum = 0 := by
    rw [List.sum_eq_zero]
    intro d hd
    obtain ⟨m, -, hm⟩ := List.mem_filterMap.mp hd
    exact List.eq_of_mem_replicate (List.mem_of_getElem? hm)
  rw [hzero]
  decide

theorem showing_laid {p : Poller} (h : p.Laid) {readings : List Nat}
    (hreadings : readings.length = p.sources.length) : (p.showing (p.depths readings)).Laid where
  keys := h.keys
  cells := by
    simp [showing, depths, hreadings]
  members := h.members

theorem ofParts_laid (sources : List Source) (groups : List Group) (filter : Filter)
    (hmembers : ∀ g ∈ groups, ∀ m ∈ g.members, m < sources.length) :
    (ofParts sources groups filter).Laid where
  keys := by simp [Poller.keys, ofParts, Gauge.ofKeys]
  cells := by simp [ofParts, Gauge.ofKeys]
  members := hmembers

theorem countP_samples {p : Poller} (h : p.Laid) {readings : List Nat}
    (hreadings : readings.length = p.sources.length) (key : EntityKey) :
    (p.samples readings).countP (·.entity = key) =
      if p.filter.allows key then p.keys.count key else 0 := by
  have hlength : p.keys.length = (p.depths readings).length := by
    rw [h.keys, depths]
    simp [hreadings]
  have hcount : p.keys.count key = (p.keys.zip (p.depths readings)).countP (·.1 = key) := by
    have hfst : (p.keys.zip (p.depths readings)).map (·.1) = p.keys :=
      List.map_fst_zip (Nat.le_of_eq hlength)
    conv_lhs => rw [← hfst, List.count, List.countP_map]
    exact List.countP_congr fun d _ => by simp
  rw [samples, kept, List.countP_map, List.countP_filter, hcount]
  split_ifs with hallows
  · refine List.countP_congr fun d _ => ?_
    simp
    rintro rfl
    exact hallows
  · refine List.countP_eq_zero.mpr fun d _ => ?_
    simp
    rintro rfl
    simpa using hallows

end Poll.Poller

end QuantileMonitor
