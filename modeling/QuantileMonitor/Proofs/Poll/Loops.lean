import QuantileMonitor.Poll.Run
import QuantileMonitor.Proofs.Ingest.Batching
import QuantileMonitor.Proofs.Poll.Iteration
import QuantileMonitor.Proofs.Registry.Counts

/-!
# The two ways to poll

Without a pause samples pass through a batch and at a steady pace they do not, but a batch stands for the
registry that it would leave, so both loops move in step and end alike. What one iteration shows depends
on its own readings only, and every iteration adds as many samples to an entity as the entity has cells.
-/

namespace QuantileMonitor.Poll

open Ingest

variable {γ : Type}

section Loops

variable [Draws γ]

theorem runPaced_cons (p : Poller) (r : Registry γ) (rs : List Nat) (readings : List (List Nat)) :
    runPaced p r (rs :: readings) =
      (p.poll rs).bind fun out => runPaced out.2 (r.recordAll out.1) readings := by
  rw [runPaced, List.foldlM_cons]
  simp only [tick]
  cases p.poll rs <;> rfl

theorem pushAll_settled (b : Batch) (r : Registry γ) (samples : List Sample) :
    (pushAll b r samples).1.settled (pushAll b r samples).2 = (b.settled r).recordAll samples := by
  induction samples generalizing b r with
  | nil => rfl
  | cons s samples ih =>
    have hpush := Batch.push_settled b s r
    rw [pushAll, ih, hpush]
    rfl

theorem turns_settled (p : Poller) (b : Batch) (r : Registry γ) (readings : List (List Nat)) :
    (readings.foldlM (fun z rs => turn z.1 z.2.1 z.2.2 rs) (p, b, r)).map
      (fun z => (z.1, z.2.1.settled z.2.2)) = runPaced p (b.settled r) readings := by
  induction readings generalizing p b r with
  | nil => rfl
  | cons rs readings ih =>
    rw [List.foldlM_cons, runPaced_cons, turn]
    cases p.poll rs with
    | none => rfl
    | some out =>
      have hrest := ih out.2 (pushAll b r out.1).1 (pushAll b r out.1).2
      rw [pushAll_settled] at hrest
      exact hrest

theorem runUnpaced_eq (p : Poller) (b : Batch) (r : Registry γ) (readings : List (List Nat)) :
    runUnpaced p b r readings = runPaced p (b.settled r) readings := by
  rw [← turns_settled, runUnpaced]
  cases readings.foldlM (fun z rs => turn z.1 z.2.1 z.2.2 rs) (p, b, r) with
  | none => rfl
  | some z => exact congrArg (fun r => some (z.1, r)) (Batch.flush_registry z.2.1 z.2.2)

end Loops

namespace Poller

section Register

theorem register_indexed (p : Poller) {r : Registry γ} (h : r.Indexed) : (p.register r).Indexed :=
  Registry.registerAll_indexed h p.keys

theorem mem_keys_register (p : Poller) {r : Registry γ} (h : r.Indexed) (key : EntityKey) :
    key ∈ (p.register r).keys ↔ key ∈ p.keys ∨ key ∈ r.keys := by
  rw [← Registry.count?_isSome_iff (p.register_indexed h), ← Registry.count?_isSome_iff h, register,
    Registry.count?_registerAll h]
  by_cases hkey : key ∈ p.keys
  · simp [hkey]
  · simp [hkey]

theorem entity_mem_keys {p : Poller} {rs : List Nat} {s : Sample} (hs : s ∈ p.samples rs) :
    s.entity ∈ p.keys := by
  obtain ⟨d, hd, rfl⟩ := List.mem_map.mp hs
  exact (List.of_mem_zip (List.mem_filter.mp hd).1).1

theorem register_eq_run [Draws γ] (p : Poller) (r : Registry γ) :
    p.register r = r.run (p.keys.map .register) := by
  rw [register, Registry.run, List.foldl_map]
  rfl

end Register

section Recording

variable [Draws γ] {p : Poller} {readings : List (List Nat)}

theorem count?_register_recordAll (p : Poller) (strategy : Quantile.Strategy)
    (draws : EntityKey → γ × γ) (now : Instant) {samples : List Sample}
    (hsamples : ∀ s ∈ samples, s.entity ∈ p.keys) (key : EntityKey) :
    ((p.register (.empty strategy draws now)).recordAll samples).count? key =
      if key ∈ p.keys then some (samples.countP (·.entity = key)) else none := by
  have hempty := Registry.empty_indexed strategy draws now
  have hfresh : key ∉ (Registry.empty strategy draws now).keys := by
    simp [Registry.keys, Registry.empty]
  have hmem := p.mem_keys_register hempty key
  rw [Registry.count?_recordAll (p.register_indexed hempty)]
  simp only [hmem, hfresh, or_false]
  by_cases hkey : key ∈ p.keys
  · simp [hkey, register, Registry.count?_registerAll hempty, Registry.count?_empty]
  · have hnone : key ∉ samples.map (·.entity) := by
      intro hin
      obtain ⟨s, hs, rfl⟩ := List.mem_map.mp hin
      exact hkey (hsamples s hs)
    simp [hkey, hnone]

theorem runPaced_eq (h : p.Laid) (hreadings : ∀ rs ∈ readings, rs.length = p.sources.length)
    (r : Registry γ) :
    ∃ depths, (p.showing depths).Laid ∧ runPaced p r readings =
      if ∀ rs ∈ readings, p.Fits rs then
        some (p.showing depths, r.recordAll (readings.flatMap p.samples))
      else none := by
  induction readings generalizing p r with
  | nil =>
    refine ⟨p.gauge.cells.toList, h, ?_⟩
    rw [if_pos nofun]
    rfl
  | cons rs readings ih =>
    obtain ⟨hrs, hrest⟩ := List.forall_mem_cons.mp hreadings
    obtain ⟨depths, hlaid, hrun⟩ := ih (showing_laid h hrs) hrest (r.recordAll (p.samples rs))
    refine ⟨depths, hlaid, ?_⟩
    rw [runPaced_cons, poll_eq h hrs]
    simp only [List.forall_mem_cons]
    by_cases hfits : p.Fits rs
    · simp only [hfits, if_true, true_and, Option.bind_some, hrun, List.flatMap_cons,
        Registry.recordAll_append]
      rfl
    · simp [hfits]

theorem runPaced_isSome_iff (h : p.Laid) (hreadings : ∀ rs ∈ readings, rs.length = p.sources.length)
    (r : Registry γ) : (runPaced p r readings).isSome ↔ ∀ rs ∈ readings, p.Fits rs := by
  obtain ⟨depths, -, hrun⟩ := runPaced_eq h hreadings r
  rw [hrun]
  exact Option.isSome_ite

theorem runPaced_eq_some (h : p.Laid) (hreadings : ∀ rs ∈ readings, rs.length = p.sources.length)
    {r r' : Registry γ} {q : Poller} (hrun : runPaced p r readings = some (q, r')) :
    q.Laid ∧ (∃ depths, q = p.showing depths) ∧ r' = r.recordAll (readings.flatMap p.samples) := by
  obtain ⟨depths, hlaid, heq⟩ := runPaced_eq h hreadings r
  rw [heq] at hrun
  obtain ⟨-, hout⟩ := Option.ite_none_right_eq_some.mp hrun
  cases hout
  exact ⟨hlaid, ⟨depths, rfl⟩, rfl⟩

end Recording

theorem countP_flatMap_samples {p : Poller} (h : p.Laid) {readings : List (List Nat)}
    (hreadings : ∀ rs ∈ readings, rs.length = p.sources.length) (key : EntityKey) :
    (readings.flatMap p.samples).countP (·.entity = key) =
      if p.filter.allows key then readings.length * p.keys.count key else 0 := by
  induction readings with
  | nil => simp
  | cons rs readings ih =>
    obtain ⟨hrs, hrest⟩ := List.forall_mem_cons.mp hreadings
    rw [List.flatMap_cons, List.countP_append, countP_samples h hrs, ih hrest, List.length_cons]
    split_ifs with hallows
    · rw [Nat.succ_mul, Nat.add_comm]
    · rfl

end Poller

/-- Both loops end alike, and fail alike if the sum of some group is no word in some iteration. An entity
that is kept has been counted once for each of its cells in each iteration, and each iteration shows its
own readings, the sums of the groups' members and samples that are the kept cells in their order. -/
theorem loops_agree [Draws γ] (strategy : Quantile.Strategy) (draws : EntityKey → γ × γ)
    (now : Instant) (sources : List Source) (groups : List Group) (filter : Filter) (flushEvery warmup : Nat)
    (hmembers : ∀ g ∈ groups, ∀ m ∈ g.members, m < sources.length) (readings : List (List Nat))
    (hreadings : ∀ rs ∈ readings, rs.length = sources.length) :
    let p := Poller.ofParts sources groups filter
    let keys := sources.map (·.key) ++ groups.map (·.key)
    let r := p.register (.empty strategy draws now)
    let words := fun rs : List Nat => ∀ g ∈ groups, (g.members.map (rs.getD · 0)).sum < Word.bound
    runUnpaced p (.empty flushEvery warmup) r readings = runPaced p r readings ∧
      ((runPaced p r readings).isSome ↔ ∀ rs ∈ readings, words rs) ∧
      (∀ q r', runPaced p r readings = some (q, r') → ∀ key, r'.count? key =
        if key ∈ keys then some (if filter.allows key then readings.length * keys.count key else 0)
        else none) ∧
      ∀ before rs after, readings = before ++ rs :: after →
        ∀ q r', runPaced p r before = some (q, r') →
          runUnpaced p (.empty flushEvery warmup) r before = some (q, r') ∧
          ((q.poll rs).isSome ↔ words rs) ∧
          ∀ samples q', q.poll rs = some (samples, q') →
            let cells := q'.gauge
            cells.cells.size = keys.length ∧
              (∀ i < sources.length, cells.load i = rs[i]?) ∧
              (∀ j g, groups[j]? = some g →
                cells.load (sources.length + j) = some (g.members.map (rs.getD · 0)).sum) ∧
              samples = ((keys.zip cells.cells.toList).filter fun e => filter.allows e.1).map
                fun e => ⟨e.1, e.2⟩ := by
  intro p keys r words
  have hlaid : p.Laid := Poller.ofParts_laid sources groups filter hmembers
  have hkeys : p.keys = keys := hlaid.keys
  have hsettled : (Batch.empty flushEvery warmup).settled r = r := rfl
  have hwords : ∀ rs ∈ readings, (p.Fits rs ↔ words rs) := fun rs hrs => hlaid.fits_iff (hreadings rs hrs)
  refine ⟨by rw [runUnpaced_eq, hsettled], ?_, ?_, ?_⟩
  · rw [Poller.runPaced_isSome_iff hlaid hreadings]
    exact forall₂_congr hwords
  · intro q r' hrun key
    obtain ⟨-, -, rfl⟩ := Poller.runPaced_eq_some hlaid hreadings hrun
    rw [← hkeys, Poller.count?_register_recordAll p, Poller.countP_flatMap_samples hlaid hreadings]
    · rfl
    · intro s hs
      obtain ⟨rs, -, hin⟩ := List.mem_flatMap.mp hs
      exact Poller.entity_mem_keys hin
  · intro before rs after hsplit q r' hrun
    have hin : rs ∈ readings := by simp [hsplit]
    have hrs : rs.length = sources.length := hreadings rs hin
    have hbefore : ∀ rs ∈ before, rs.length = p.sources.length := by
      intro rs' hin'
      exact hreadings rs' (by simp [hsplit, hin'])
    obtain ⟨hlaid', ⟨depths, rfl⟩, -⟩ := Poller.runPaced_eq_some hlaid hbefore hrun
    refine ⟨by rw [runUnpaced_eq, hsettled, hrun], ?_, ?_⟩
    · rw [Poller.poll_eq hlaid' hrs, ← hwords rs hin]
      exact Option.isSome_ite
    · intro samples q' hpoll cells
      obtain ⟨-, rfl, rfl⟩ := (Poller.poll_eq_some_iff hlaid' hrs).mp hpoll
      have hload : ∀ i, cells.load i = (p.depths rs)[i]? := by
        intro i
        simp [cells, Gauge.load, Poller.showing, Poller.depths]
      refine ⟨?_, ?_, ?_, ?_⟩
      · simp [cells, Poller.showing, Poller.depths, keys, hrs, p, Poller.ofParts]
      · intro i hi
        rw [hload, Poller.depths, List.getElem?_append_left (by omega)]
      · intro j g hg
        have hsum := Poller.filterMap_readings fun m hm => hrs ▸ hmembers g (List.mem_of_getElem? hg) m hm
        rw [hload, Poller.depths, List.getElem?_append_right (by omega), hrs, Nat.add_sub_cancel_left,
          List.getElem?_map]
        simp only [p, Poller.ofParts, hg, Option.map_some, hsum]
      · rw [← hkeys]
        rfl

theorem loops_agree_pair :
    let sources : List Source := [⟨.device ⟨8⟩, .file 0⟩, ⟨.device ⟨9⟩, .file 1⟩]
    let groups : List Group := [⟨.group 0, [0, 1]⟩]
    let readings := [[1, 2], [3, 4]]
    let p := Poller.ofParts sources groups (.ofKeys [.group 0])
    let r := p.register (.empty (.reservoir 2) (fun _ => (([], []) : List Nat × List Nat)) 0)
    (∀ g ∈ groups, ∀ m ∈ g.members, m < sources.length) ∧
      (∀ rs ∈ readings, rs.length = sources.length) ∧
      (∃ q r', runUnpaced p (.empty 3 1) r readings = some (q, r') ∧
        r'.count? (.group 0) = some 2 ∧ r'.count? (.device ⟨8⟩) = some 0) ∧
      ∃ q r' samples q', runPaced p r [[1, 2]] = some (q, r') ∧ q.poll [3, 4] = some (samples, q') ∧
        q'.gauge.load 2 = some 7 := by
  intro sources groups readings p r
  have hmembers : ∀ g ∈ groups, ∀ m ∈ g.members, m < sources.length := by decide
  have hreadings : ∀ rs ∈ readings, rs.length = sources.length := by decide
  obtain ⟨hsame, hsome, hcounts, hcells⟩ := loops_agree (.reservoir 2)
    (fun _ => (([], []) : List Nat × List Nat)) 0 sources groups (.ofKeys [.group 0]) 3 1
    hmembers readings hreadings
  refine ⟨hmembers, hreadings, ?_, ?_⟩
  · obtain ⟨⟨q, r'⟩, hrun⟩ := Option.isSome_iff_exists.mp (hsome.mpr (by decide))
    refine ⟨q, r', hsame.trans hrun, ?_, ?_⟩
    · rw [hcounts q r' hrun]
      simp [sources, groups, readings, Filter.ofKeys, Filter.allows]
    · rw [hcounts q r' hrun]
      simp [sources, groups, Filter.ofKeys, Filter.allows]
  · obtain ⟨q, r', hrun⟩ : ∃ q r', runPaced p r [[1, 2]] = some (q, r') := ⟨_, _, rfl⟩
    obtain ⟨-, hpolls, hshown⟩ := hcells [[1, 2]] [3, 4] [] rfl q r' hrun
    obtain ⟨⟨samples, q'⟩, hpoll⟩ := Option.isSome_iff_exists.mp (hpolls.mpr (by decide))
    obtain ⟨-, -, hsums, -⟩ := hshown samples q' hpoll
    exact ⟨q, r', samples, q', hrun, hpoll, hsums 0 ⟨.group 0, [0, 1]⟩ rfl⟩

end QuantileMonitor.Poll
