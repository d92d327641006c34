import QuantileMonitor.Proofs.Monitor.Planning
import QuantileMonitor.Proofs.Poll.Loops

/-!
# What a running monitor records

Every event of a run is one step of polling, of the resets or of the frames. Whatever their order, the
registry stands for all readings made so far, up to intervals that began anew and to samples that wait in
the batch or in the iteration under way. Between iterations an entity therefore has been counted once for
each iteration and each time that it is polled.
-/

namespace QuantileMonitor.Monitor

open Device Ingest Poll

variable {γ : Type}

def made (events : List Event) : List (List Nat) :=
  events.filterMap fun
    | .read depths => some depths
    | _ => none

theorem made_cons (e : Event) (events : List Event) : made (e :: events) = made [e] ++ made events := by
  rw [made, made, made, ← List.filterMap_append]
  rfl

theorem made_iterationEvents (m : Monitor γ) (depths : List Nat) :
    made (m.iterationEvents depths) = [depths] := by
  have hpasses : ∀ waiting : List Sample, made (waiting.map fun _ => .pass) = [] := by
    intro waiting
    simp [made]
  rw [iterationEvents, made_cons]
  cases m.poller.poll depths with
  | none => rfl
  | some out => rw [hpasses]; rfl

variable [Draws γ]

def settled (m : Monitor γ) : Registry γ :=
  match m.batch with
  | none => m.registry
  | some b => b.settled m.registry

theorem settled_of_waiting {m : Monitor γ} (h : ∀ b ∈ m.batch, b.waiting = #[]) :
    m.settled = m.registry := by
  rw [settled]
  cases hbatch : m.batch with
  | none => rfl
  | some b =>
    have hwaiting := h b hbatch
    simp only [Batch.settled, hwaiting]
    rfl

theorem flush_of_batch {m : Monitor γ} {b : Batch} (h : m.batch = some b) :
    m.flush = { m with batch := some (b.flush m.registry).1, registry := (b.flush m.registry).2 } := by
  rw [flush, h]

theorem flush_registry (m : Monitor γ) : m.flush.registry = m.settled := by
  cases hbatch : m.batch with
  | none => rw [flush, settled, hbatch]
  | some b =>
    rw [flush_of_batch hbatch, settled, hbatch]
    exact Batch.flush_registry b m.registry

theorem flush_settled (m : Monitor γ) : m.flush.settled = m.settled := by
  cases hbatch : m.batch with
  | none => rw [flush, hbatch]
  | some b =>
    rw [flush_of_batch hbatch, settled, settled, hbatch]
    exact Batch.flush_settled b m.registry

theorem flush_same (m : Monitor γ) :
    m.flush.poller = m.poller ∧ m.flush.iterations = m.iterations ∧ m.flush.passing = m.passing := by
  cases hbatch : m.batch with
  | none =>
    rw [flush, hbatch]
    exact ⟨rfl, rfl, rfl⟩
  | some b =>
    rw [flush_of_batch hbatch]
    exact ⟨rfl, rfl, rfl⟩

theorem passOn_settled (m : Monitor γ) (s : Sample) (rest : List Sample) :
    (m.passOn s rest).settled = m.settled.record s.entity s.value := by
  obtain ⟨root, poller, batch, passing, iterations, registry, counters, screen, output, stage⟩ := m
  cases batch with
  | none => rfl
  | some b => exact Batch.push_settled b s registry

theorem passOn_same (m : Monitor γ) (s : Sample) (rest : List Sample) :
    (m.passOn s rest).poller = m.poller ∧ (m.passOn s rest).iterations = m.iterations ∧
      (m.passOn s rest).passing = rest ∧ (m.passOn s rest).stage = m.stage := by
  obtain ⟨root, poller, batch, passing, iterations, registry, counters, screen, output, stage⟩ := m
  cases batch with
  | none => exact ⟨rfl, rfl, rfl, rfl⟩
  | some b => exact ⟨rfl, rfl, rfl, rfl⟩

theorem resetIntervals_settled (m : Monitor γ) (now : Instant) :
    ({ m with registry := m.registry.resetIntervals now }.settled).SameLifetimes m.settled := by
  rw [settled, settled]
  cases m.batch with
  | none => exact Registry.resetIntervals_sameLifetimes m.registry now
  | some b =>
    exact Registry.recordAll_sameLifetimes
      (Registry.resetIntervals_sameLifetimes m.registry now) b.waiting.toList

def beginning (m : Monitor γ) (samples : List Sample) (poller : Poller) : Monitor γ :=
  { m with poller, passing := samples, iterations := m.iterations + 1 }

inductive Effect (m : Monitor γ) : List (List Nat) → Monitor γ → Prop
  | read (depths : List Nat) {samples : List Sample} {poller : Poller} (hpassing : m.passing = [])
      (hpoll : m.poller.poll depths = some (samples, poller)) :
      Effect m [depths] (m.beginning samples poller)
  | pass {s : Sample} {rest : List Sample} (hpassing : m.passing = s :: rest) :
      Effect m [] (m.passOn s rest)
  | reset (now : Instant) : Effect m [] { m with registry := m.registry.resetIntervals now }
  | flush (stage : Stage) : Effect m [] { m.flush with stage }
  | other {m' : Monitor γ} (hpoller : m'.poller = m.poller) (hbatch : m'.batch = m.batch)
      (hpassing : m'.passing = m.passing) (hiterations : m'.iterations = m.iterations)
      (hregistry : m'.registry = m.registry) : Effect m [] m'

theorem Effect.of_stage (m : Monitor γ) (stage : Stage) : Effect m [] { m with stage } :=
  .other rfl rfl rfl rfl rfl

inductive Turn (m : Monitor γ) : Event → Monitor γ → Prop
  | read (depths : List Nat) {samples : List Sample} {poller : Poller} (hstage : m.stage = .running)
      (hpassing : m.passing = []) (hpoll : m.poller.poll depths = some (samples, poller)) :
      Turn m (.read depths) (m.beginning samples poller)
  | pass {s : Sample} {rest : List Sample} (hpassing : m.passing = s :: rest) :
      Turn m .pass (m.passOn s rest)
  | reset (now : Instant) (hstage : m.stage.mayReset = true) :
      Turn m (.reset now) { m with registry := m.registry.resetIntervals now }
  | draw (shot : Shot) (hstage : m.stage.mayDraw = true) : Turn m (.draw shot) (m.drawFrame shot)
  | cancel (hstage : m.stage = .running) : Turn m .cancel { m with stage := .ending true true }
  | endPolling {resetting : Bool} (hstage : m.stage = .ending true resetting)
      (hpassing : m.passing = []) :
      Turn m .endPolling { m.flush with stage := .ending false resetting }
  | endResets {polling : Bool} (hstage : m.stage = .ending polling true) :
      Turn m .endResets { m with stage := .ending polling false }
  | endFrames (hstage : m.stage = .ending false false) :
      Turn m .endFrames { m with stage := .closing }
  | drawLast (shot : Shot) (hstage : m.stage = .closing) :
      Turn m (.drawLast shot) { m.drawFrame shot with stage := .stopped }

theorem step?_turn {m m' : Monitor γ} {e : Event} (h : m.step? e = some m') : Turn m e m' := by
  cases e with
  | read depths =>
    obtain ⟨⟨hstage, hpassing⟩, hnext⟩ := Option.ite_none_right_eq_some.mp h
    obtain ⟨⟨samples, poller⟩, hpoll, hbegun⟩ := Option.bind_eq_some_iff.mp hnext
    cases hbegun
    exact .read depths hstage hpassing hpoll
  | pass =>
    rw [step?] at h
    split at h
    next => cases h
    next s rest hpassing =>
      cases h
      exact .pass hpassing
  | reset now =>
    obtain ⟨hstage, hnext⟩ := Option.ite_none_right_eq_some.mp h
    cases hnext
    exact .reset now hstage
  | draw shot =>
    obtain ⟨hstage, hnext⟩ := Option.ite_none_right_eq_some.mp h
    cases hnext
    exact .draw shot hstage
  | cancel =>
    obtain ⟨hstage, hnext⟩ := Option.ite_none_right_eq_some.mp h
    cases hnext
    exact .cancel hstage
  | endPolling =>
    rw [step?] at h
    split at h
    next hstage hpassing =>
      cases h
      exact .endPolling hstage hpassing
    next => cases h
  | endResets =>
    rw [step?] at h
    split at h
    next hstage =>
      cases h
      exact .endResets hstage
    next => cases h
  | endFrames =>
    obtain ⟨hstage, hnext⟩ := Option.ite_none_right_eq_some.mp h
    cases hnext
    exact .endFrames hstage
  | drawLast shot =>
    obtain ⟨hstage, hnext⟩ := Option.ite_none_right_eq_some.mp h
    cases hnext
    exact .drawLast shot hstage

theorem Turn.step? {m m' : Monitor γ} {e : Event} (h : Turn m e m') : m.step? e = some m' := by
  cases h with
  | read depths hstage hpassing hpoll =>
    rw [Monitor.step?, if_pos ⟨hstage, hpassing⟩, hpoll]
    rfl
  | pass hpassing => rw [Monitor.step?, hpassing]
  | reset now hstage => rw [Monitor.step?, if_pos hstage]
  | draw shot hstage => rw [Monitor.step?, if_pos hstage]
  | cancel hstage => rw [Monitor.step?, if_pos hstage]
  | endPolling hstage hpassing => rw [Monitor.step?, hstage, hpassing]
  | endResets hstage => rw [Monitor.step?, hstage]
  | endFrames hstage => rw [Monitor.step?, if_pos hstage]
  | drawLast shot hstage => rw [Monitor.step?, if_pos hstage]

theorem step?_effect {m m' : Monitor γ} {e : Event} (h : m.step? e = some m') :
    Effect m (made [e]) m' := by
  cases step?_turn h with
  | read depths hstage hpassing hpoll => exact .read depths hpassing hpoll
  | pass hpassing => exact .pass hpassing
  | reset now hstage => exact .reset now
  | endPolling hstage hpassing => exact .flush _
  | draw shot hstage => exact .other rfl rfl rfl rfl rfl
  | drawLast shot hstage => exact .other rfl rfl rfl rfl rfl
  | cancel hstage => exact .of_stage m _
  | endResets hstage => exact .of_stage m _
  | endFrames hstage => exact .of_stage m _

theorem run?_cons_eq_some_iff {m m' : Monitor γ} {e : Event} {events : List Event} :
    m.run? (e :: events) = some m' ↔
      ∃ next, m.step? e = some next ∧ next.run? events = some m' := by
  rw [run?, List.foldlM_cons, Option.bind_eq_bind, Option.bind_eq_some_iff]
  rfl

structure Follows (start : Monitor γ) (readings : List (List Nat)) (m : Monitor γ) : Prop where
  laid : m.poller.Laid
  poller : ∃ depths, m.poller = start.poller.showing depths
  iterations : m.iterations = readings.length
  lifetimes : (m.settled.recordAll m.passing).SameLifetimes
    (start.settled.recordAll (readings.flatMap start.poller.samples))

namespace Follows

variable {start m m' : Monitor γ} {readings : List (List Nat)}

theorem of_idle (hlaid : start.poller.Laid) (hiterations : start.iterations = 0)
    (hpassing : start.passing = []) : Follows start [] start := by
  refine ⟨hlaid, ⟨start.poller.gauge.cells.toList, rfl⟩, hiterations, ?_⟩
  rw [hpassing]
  exact Registry.SameLifetimes.refl _

theorem of_same (h : Follows start readings m) (hpoller : m'.poller = m.poller)
    (hiterations : m'.iterations = m.iterations)
    (hlifetimes : (m'.settled.recordAll m'.passing).SameLifetimes (m.settled.recordAll m.passing)) :
    Follows start readings m' :=
  ⟨hpoller ▸ h.laid, hpoller ▸ h.poller, hiterations.trans h.iterations,
    hlifetimes.trans h.lifetimes⟩

theorem read (h : Follows start readings m) (hpassing : m.passing = []) {depths : List Nat}
    {samples : List Sample} {poller : Poller} (hpoll : m.poller.poll depths = some (samples, poller))
    (hdepths : depths.length = start.poller.sources.length) :
    Follows start (readings ++ [depths]) (m.beginning samples poller) := by
  obtain ⟨cells, hpoller⟩ := h.poller
  have hdepths' : depths.length = m.poller.sources.length := by
    rw [hpoller]
    exact hdepths
  have hsamples : m.poller.samples depths = start.poller.samples depths := by
    rw [hpoller]
    rfl
  obtain ⟨-, rfl, rfl⟩ := (Poller.poll_eq_some_iff h.laid hdepths').mp hpoll
  refine ⟨Poller.showing_laid h.laid hdepths', ⟨m.poller.depths depths, ?_⟩, ?_, ?_⟩
  · rw [hpoller]
    rfl
  · simp [beginning, h.iterations]
  · have hlifetimes := h.lifetimes
    rw [hpassing] at hlifetimes
    have hmore := Registry.recordAll_sameLifetimes hlifetimes (m.poller.samples depths)
    rw [List.flatMap_append, List.flatMap_singleton, ← hsamples, Registry.recordAll_append]
    exact hmore

theorem pass (h : Follows start readings m) {s : Sample} {rest : List Sample}
    (hpassing : m.passing = s :: rest) : Follows start readings (m.passOn s rest) := by
  obtain ⟨hpoller, hiterations, hrest, -⟩ := passOn_same m s rest
  refine h.of_same hpoller hiterations ?_
  rw [hrest, passOn_settled, hpassing]
  exact Registry.SameLifetimes.refl _

theorem effect (h : Follows start readings m) {more : List (List Nat)} (heffect : Effect m more m')
    (hmore : ∀ depths ∈ more, depths.length = start.poller.sources.length) :
    Follows start (readings ++ more) m' := by
  cases heffect with
  | read depths hpassing hpoll => exact h.read hpassing hpoll (hmore depths List.mem_cons_self)
  | pass hpassing =>
    rw [List.append_nil]
    exact h.pass hpassing
  | reset now =>
    rw [List.append_nil]
    refine h.of_same rfl rfl ?_
    exact Registry.recordAll_sameLifetimes (resetIntervals_settled m now) m.passing
  | flush stage =>
    rw [List.append_nil]
    obtain ⟨hpoller, hiterations, hpassing⟩ := flush_same m
    have hsettled : ({ m.flush with stage } : Monitor γ).settled = m.settled := flush_settled m
    refine h.of_same hpoller hiterations ?_
    rw [hsettled]
    simp only [hpassing]
    exact Registry.SameLifetimes.refl _
  | other hpoller hbatch hpassing hiterations hregistry =>
    rw [List.append_nil]
    refine h.of_same hpoller hiterations ?_
    rw [settled, settled, hbatch, hpassing, hregistry]
    exact Registry.SameLifetimes.refl _

theorem run (h : Follows start readings m) {events : List Event} (hrun : m.run? events = some m')
    (hmade : ∀ depths ∈ made events, depths.length = start.poller.sources.length) :
    Follows start (readings ++ made events) m' := by
  induction events generalizing m readings with
  | nil =>
    cases hrun
    simpa [made] using h
  | cons e events ih =>
    obtain ⟨next, hstep, hrest⟩ := run?_cons_eq_some_iff.mp hrun
    rw [made_cons] at hmade ⊢
    rw [← List.append_assoc]
    refine ih (h.effect (step?_effect hstep) ?_) hrest ?_
    · exact fun depths hd => hmade depths (List.mem_append_left _ hd)
    · exact fun depths hd => hmade depths (List.mem_append_right _ hd)

end Follows

/-- A run that stands between two iterations, each with a reading of each source. -/
structure Reaches (m : Monitor γ) (events : List Event) (m' : Monitor γ) : Prop where
  run : m.run? events = some m'
  passing : m'.passing = []
  readings : ∀ depths ∈ made events, depths.length = m.poller.sources.length

namespace Started

variable {s : Settings} {draws : EntityKey → γ × γ} {now : Instant} {selected : List Selected}
  {m m' : Monitor γ} {events : List Event}

theorem settled_eq (h : Started s draws now selected m) :
    m.settled = m.poller.register (.empty s.strategy draws now) := by
  rw [settled_of_waiting h.batch, h.registry]

theorem follows (h : Started s draws now selected m) : Follows m [] m :=
  .of_idle h.laid h.iterations h.passing

theorem count?_flush (h : Started s draws now selected m) (hreaches : Reaches m events m')
    (key : EntityKey) :
    m'.flush.registry.count? key =
      if key ∈ m.poller.keys then some ((made events).length * m.poller.keys.count key) else none := by
  have hfollows := h.follows.run hreaches.run hreaches.readings
  have hlifetimes := hfollows.lifetimes
  rw [List.nil_append, hreaches.passing, h.settled_eq] at hlifetimes
  have hcount := hlifetimes.count? key
  rw [flush_registry]
  refine hcount.trans ?_
  rw [Poller.count?_register_recordAll m.poller, Poller.countP_flatMap_samples h.laid hreaches.readings,
    h.filter]
  · rfl
  · intro sample hsample
    obtain ⟨depths, -, hin⟩ := List.mem_flatMap.mp hsample
    exact Poller.entity_mem_keys hin

theorem iterations_eq (h : Started s draws now selected m) (hreaches : Reaches m events m') :
    m'.iterations = (made events).length := by
  have hfollows := h.follows.run hreaches.run hreaches.readings
  exact hfollows.iterations

end Started

theorem run_passes {m : Monitor γ} {waiting : List Sample} (h : m.passing = waiting) :
    ∃ m', m.run? (waiting.map fun _ => .pass) = some m' ∧ m'.passing = [] := by
  induction waiting generalizing m with
  | nil => exact ⟨m, rfl, h⟩
  | cons s rest ih =>
    obtain ⟨-, -, hrest, -⟩ := passOn_same m s rest
    obtain ⟨m', hrun, hpassing⟩ := ih hrest
    refine ⟨m', ?_, hpassing⟩
    exact run?_cons_eq_some_iff.mpr ⟨_, (Turn.pass h).step?, hrun⟩

theorem exists_iteration {m : Monitor γ} (hlaid : m.poller.Laid) (hstage : m.stage = .running)
    (hpassing : m.passing = []) : ∃ events m', Reaches m events m' ∧ (made events).length = 1 := by
  obtain ⟨depths, hdepths, hfits⟩ := m.poller.exists_fits
  have hpoll := (Poller.poll_eq_some_iff hlaid hdepths).mpr ⟨hfits, rfl, rfl⟩
  obtain ⟨m', hrun, hdone⟩ := run_passes
    (rfl : (m.beginning (m.poller.samples depths) (m.poller.showing _)).passing = m.poller.samples depths)
  have hmade := made_iterationEvents m depths
  refine ⟨m.iterationEvents depths, m', ⟨?_, hdone, ?_⟩, by rw [hmade]; rfl⟩
  · rw [iterationEvents, hpoll]
    exact run?_cons_eq_some_iff.mpr ⟨_, (Turn.read depths hstage hpassing hpoll).step?, hrun⟩
  · rw [hmade]
    simpa using hdepths

/-- Whatever is configured, a monitor that starts counts each polled entity once in each iteration for
each time that it polls it. It is once for all of them exactly if no device was selected twice. -/
theorem start_counts {s : Settings} {files : Files} {draws : EntityKey → γ × γ} {now : Instant}
    {m : Monitor γ} (h : start s files draws now = .ok m) :
    ∃ selected, pollTargets s ⟨s.sysRoot, files⟩ = .ok selected ∧
      m.poller.keys = deviceKeys selected ++ groupKeys 0 s.groups.length ∧
      (∀ events m', Reaches m events m' → m'.iterations = (made events).length ∧
        ∀ key, m'.flush.registry.count? key =
          if key ∈ m.poller.keys then some (m'.iterations * m.poller.keys.count key) else none) ∧
      ((∀ events m', Reaches m events m' → ∀ key ∈ m.poller.keys,
        m'.flush.registry.count? key = some m'.iterations) ↔ (selected.map (·.id)).Nodup) := by
  obtain ⟨selected, htargets, hstarted⟩ := start_started h
  have hcount : ∀ events m', Reaches m events m' → ∀ key, m'.flush.registry.count? key =
      if key ∈ m.poller.keys then some (m'.iterations * m.poller.keys.count key) else none := by
    intro events m' hreaches key
    rw [hstarted.count?_flush hreaches, hstarted.iterations_eq hreaches]
  refine ⟨selected, htargets, hstarted.keys, ?_, ?_⟩
  · intro events m' hreaches
    exact ⟨hstarted.iterations_eq hreaches, hcount events m' hreaches⟩
  · rw [← keys_nodup_iff hstarted.groups, ← hstarted.keys]
    constructor
    · intro hall
      obtain ⟨events, m', hreaches, hone⟩ := exists_iteration hstarted.laid hstarted.stage hstarted.passing
      have hiterations := (hstarted.iterations_eq hreaches).trans hone
      refine List.nodup_iff_count_le_one.mpr fun key => ?_
      by_cases hkey : key ∈ m.poller.keys
      · have htwo := hcount events m' hreaches key
        rw [hall events m' hreaches key hkey, if_pos hkey, hiterations, Nat.one_mul] at htwo
        exact Nat.le_of_eq (Option.some.inj htwo).symm
      · rw [List.count_eq_zero.mpr hkey]
        exact Nat.zero_le 1
    · intro hnodup events m' hreaches key hkey
      rw [hcount events m' hreaches key, if_pos hkey, List.count_eq_one_of_mem hnodup hkey, Nat.mul_one]

section Twice

def disk : DeviceId := ⟨0x800000⟩

def diskTree : Files where
  nodes := [(["/", "sys"], .directory), (["/", "sys", "block"], .directory),
    (["/", "sys", "block", "sda"], .directory), (["/", "sys", "block", "sda", "uevent"], .file 0),
    (["/", "sys", "block", "sda", "inflight"], .file 1)]
  contents := #["MAJOR=8\nMINOR=0\n".toUTF8, "1 2\n".toUTF8]

def namedTwice : Settings := { mode := .queue, devices := "sda,8:0" }

theorem namedTwice_targets :
    pollTargets namedTwice ⟨"/sys", diskTree⟩ = .ok [⟨"sda", disk⟩, ⟨"8:0", disk⟩] := by
  apply eq_ok_of_toOption
  decide +kernel

theorem name_of_known {n : Names} {tree : SysTree} {key : EntityKey} {name : String}
    (h : n.known[key]? = some name) : n.name tree key = (name, n) := by
  rw [Names.name, h]

theorem namedTwice_sources :
    (openSources ⟨"/sys", diskTree⟩ [⟨"sda", disk⟩, ⟨"8:0", disk⟩] (.ofGroups [])).1 =
      .ok [⟨.device disk, .file 1⟩, ⟨.device disk, .file 1⟩] := by
  obtain ⟨n, hn⟩ : ∃ n, n = (Names.ofGroups []).insert (.device disk) "sda" := ⟨_, rfl⟩
  have hname : n.name ⟨"/sys", diskTree⟩ (.device disk) = ("sda", n) :=
    name_of_known (by simp [hn, Names.insert])
  have hfirst : seedName (.ofGroups []) ⟨"sda", disk⟩ = n := by
    rw [hn, seedName, if_neg (by decide +kernel)]
  have hsecond : seedName n ⟨"8:0", disk⟩ = n := by
    rw [seedName, if_pos (by decide +kernel)]
  have hopen : openSource diskTree (.device disk) (SysTree.inflightPath ⟨"/sys", diskTree⟩ "sda") =
      .ok ⟨.device disk, .file 1⟩ := rfl
  have hnil : (openSources ⟨"/sys", diskTree⟩ [] n).1 = .ok [] := rfl
  simp only [openSources_cons, hfirst, hsecond, hname, hopen, hnil, Except.map]

theorem namedTwice_starts {γ : Type} (draws : EntityKey → γ × γ) (now : Instant) :
    ∃ m, start namedTwice diskTree draws now = .ok m := by
  have hcheck : namedTwice.check = .ok () := rfl
  obtain ⟨p, n, hplan⟩ : ∃ p n, plan namedTwice ⟨"/sys", diskTree⟩ (.ofGroups []) = (.ok p, n) := by
    have hsources := namedTwice_sources
    rw [plan, namedTwice_targets]
    dsimp only
    cases hopened : openSources ⟨"/sys", diskTree⟩ [⟨"sda", disk⟩, ⟨"8:0", disk⟩] (.ofGroups []) with
    | mk result n =>
      rw [hopened] at hsources
      dsimp only at hsources
      rw [hsources]
      exact ⟨_, _, rfl⟩
  refine ⟨ofPlan namedTwice p n draws now, ?_⟩
  rw [start, bind_eq_ok]
  refine ⟨(), by rw [hcheck]; rfl, ?_⟩
  have hmode : namedTwice.mode = .queue := rfl
  have hroot : namedTwice.sysRoot = "/sys" := rfl
  have hgroups : groupNames namedTwice = [] := rfl
  simp only [hmode, hroot, hgroups, hplan]
  rfl

theorem start_counts_namedTwice : ∃ m : Monitor (List Nat),
    start namedTwice diskTree (fun _ => ([], [])) 0 = .ok m ∧
      ∀ events m', Reaches m events m' →
        m'.flush.registry.count? (.device disk) = some (m'.iterations * 2) := by
  obtain ⟨m, hm⟩ := namedTwice_starts (fun _ => (([], []) : List Nat × List Nat)) 0
  obtain ⟨selected, htargets, hkeys, hcounts, -⟩ := start_counts hm
  have hselected : selected = [⟨"sda", disk⟩, ⟨"8:0", disk⟩] :=
    Except.ok.inj (htargets.symm.trans namedTwice_targets)
  have hpolled : m.poller.keys = [.device disk, .device disk] := by
    rw [hkeys, hselected]
    rfl
  refine ⟨m, hm, fun events m' hreaches => ?_⟩
  obtain ⟨-, hcount⟩ := hcounts events m' hreaches
  rw [hcount, hpolled]
  simp

theorem count_exceeds_iterations : ∃ (m m' : Monitor (List Nat)) (events : List Event),
    start namedTwice diskTree (fun _ => ([], [])) 0 = .ok m ∧ Reaches m events m' ∧
      .device disk ∈ m.poller.keys ∧ m'.iterations = 1 ∧
      m'.flush.registry.count? (.device disk) = some 2 := by
  obtain ⟨m, hm⟩ := namedTwice_starts (fun _ => (([], []) : List Nat × List Nat)) 0
  obtain ⟨selected, htargets, hstarted⟩ := start_started hm
  obtain rfl : [⟨"sda", disk⟩, ⟨"8:0", disk⟩] = selected :=
    Except.ok.inj (namedTwice_targets.symm.trans htargets)
  have hpolled : m.poller.keys = [.device disk, .device disk] := hstarted.keys
  obtain ⟨events, m', hreaches, hone⟩ := exists_iteration hstarted.laid hstarted.stage hstarted.passing
  refine ⟨m, m', events, hm, hreaches, by simp [hpolled], ?_, ?_⟩
  · exact (hstarted.iterations_eq hreaches).trans hone
  · rw [hstarted.count?_flush hreaches, hone, hpolled]
    simp

end Twice

end QuantileMonitor.Monitor
