import QuantileMonitor.Proofs.Monitor.Polling
import QuantileMonitor.Proofs.Registry.Snapshot

/-!
# How a monitor stops

Once polling has ended nothing is on its way to the registry, and once rendering is told to end nothing is
left to happen but the last frame. So that frame shows every sample of every iteration, and what it shows
stays. A monitor that was told to stop can always go on, and only resets and frames put the end off.
-/

namespace QuantileMonitor.Monitor

open Device Ingest Poll

variable {γ : Type}

def Stage.polls : Stage → Bool
  | running => true
  | ending polling _ => polling
  | _ => false

def Stage.toGo : Stage → Nat
  | running => 5
  | ending polling resetting => 2 + polling.toNat + resetting.toNat
  | closing => 1
  | stopped => 0

def Event.isWork : Event → Bool
  | .reset _ | .draw _ => false
  | _ => true

/-- What a monitor that was told to stop has to do yet, in events. -/
def toGo (m : Monitor γ) : Nat := m.passing.length + m.stage.toGo

/-- A monitor to which nothing has happened yet, with any batch and on any registry. -/
structure Fresh (m : Monitor γ) : Prop where
  laid : m.poller.Laid
  indexed : m.registry.Indexed
  waiting : ∀ b ∈ m.batch, b.waiting = #[]
  passing : m.passing = []
  iterations : m.iterations = 0
  stage : m.stage = .running

theorem start_fresh {s : Settings} {files : Files} {draws : EntityKey → γ × γ} {now : Instant}
    {m : Monitor γ} (h : start s files draws now = .ok m) : m.Fresh := by
  obtain ⟨selected, -, hstarted⟩ := start_started h
  have hindexed : (m.poller.register (.empty s.strategy draws now)).Indexed :=
    m.poller.register_indexed (Registry.empty_indexed _ _ _)
  exact ⟨hstarted.laid, hstarted.registry ▸ hindexed, hstarted.batch, hstarted.passing,
    hstarted.iterations, hstarted.stage⟩

/-- Nothing is on its way once polling has ended. -/
def Orderly (m : Monitor γ) : Prop :=
  m.stage.polls = false → m.passing = [] ∧ ∀ b ∈ m.batch, b.waiting = #[]

section Orderly

variable {m : Monitor γ}

theorem orderly_of_polls (h : m.stage.polls = true) : m.Orderly := by
  intro hno
  rw [h] at hno
  cases hno

theorem Fresh.orderly (h : m.Fresh) : m.Orderly := fun _ => ⟨h.passing, h.waiting⟩

theorem Orderly.passing (h : m.Orderly) (hpolls : m.stage.polls = false) : m.passing = [] := (h hpolls).1

theorem Orderly.toGo_eq_zero_iff (h : m.Orderly) : m.toGo = 0 ↔ m.stage = .stopped := by
  rw [toGo, Nat.add_eq_zero_iff]
  constructor
  · rintro ⟨-, hzero⟩
    cases hstage : m.stage with
    | stopped => rfl
    | _ => simp [hstage, Stage.toGo] at hzero
  · intro hstage
    have hpassing := h.passing (by rw [hstage]; rfl)
    simp [hpassing, hstage, Stage.toGo]

end Orderly

variable [Draws γ] {m m' : Monitor γ} {e : Event} {events : List Event}

theorem flush_waiting (m : Monitor γ) : ∀ b ∈ m.flush.batch, b.waiting = #[] := by
  intro b hb
  cases hbatch : m.batch with
  | none =>
    rw [flush, hbatch] at hb
    simp [hbatch] at hb
  | some b' =>
    rw [flush_of_batch hbatch] at hb
    cases hb
    exact b'.flush_waiting m.registry

theorem Turn.orderly (h : Turn m e m') (ho : m.Orderly) : m'.Orderly := by
  cases h with
  | read depths hstage hpassing hpoll =>
    apply orderly_of_polls
    rw [beginning, hstage]
    rfl
  | @pass s rest hpassing =>
    obtain ⟨-, -, -, hstage⟩ := passOn_same m s rest
    apply orderly_of_polls
    rw [hstage, ← Bool.not_eq_false]
    intro hno
    rw [ho.passing hno] at hpassing
    cases hpassing
  | reset now hstage => exact ho
  | draw shot hstage => exact ho
  | cancel hstage => exact orderly_of_polls rfl
  | endPolling hstage hpassing =>
    obtain ⟨-, -, hsame⟩ := flush_same m
    exact fun _ => ⟨hsame.trans hpassing, flush_waiting m⟩
  | endResets hstage =>
    rw [Orderly, hstage] at ho
    exact ho
  | endFrames hstage => exact fun _ => ho (by rw [hstage]; rfl)
  | drawLast shot hstage => exact fun _ => ho (by rw [hstage]; rfl)

theorem Turn.toGo (h : Turn m e m') (hstage : m.stage ≠ .running) :
    m'.stage ≠ .running ∧ [e].countP Event.isWork + m'.toGo = m.toGo := by
  cases h with
  | read depths hrunning hpassing hpoll => exact absurd hrunning hstage
  | @pass s rest hpassing =>
    obtain ⟨-, -, hrest, hsame⟩ := passOn_same m s rest
    refine ⟨hsame ▸ hstage, ?_⟩
    simp [Monitor.toGo, hrest, hsame, hpassing, Event.isWork]
    omega
  | reset now hreset => exact ⟨hstage, Nat.zero_add _⟩
  | draw shot hdraw => exact ⟨hstage, Nat.zero_add _⟩
  | cancel hrunning => exact absurd hrunning hstage
  | endPolling hending hpassing =>
    obtain ⟨-, -, hsame⟩ := flush_same m
    refine ⟨nofun, ?_⟩
    simp [Monitor.toGo, hsame, hending, Stage.toGo, Event.isWork]
    omega
  | endResets hending =>
    refine ⟨nofun, ?_⟩
    simp [Monitor.toGo, hending, Stage.toGo, Event.isWork]
    omega
  | endFrames hending =>
    refine ⟨nofun, ?_⟩
    simp [Monitor.toGo, hending, Stage.toGo, Event.isWork]
    omega
  | drawLast shot hclosing =>
    refine ⟨nofun, ?_⟩
    simp [Monitor.toGo, drawFrame, hclosing, Stage.toGo, Event.isWork]
    omega

theorem exists_work (hrunning : m.stage ≠ .running) (hstopped : m.stage ≠ .stopped) (shot : Shot) :
    ∃ e m', Turn m e m' ∧ e.isWork = true ∧ (m'.stage = .stopped → e = .drawLast shot) := by
  cases hstage : m.stage with
  | running => exact absurd hstage hrunning
  | ending polling resetting =>
    cases polling with
    | true =>
      cases hpassing : m.passing with
      | nil => exact ⟨_, _, .endPolling hstage hpassing, rfl, nofun⟩
      | cons s rest =>
        obtain ⟨-, -, -, hsame⟩ := passOn_same m s rest
        exact ⟨_, _, .pass hpassing, rfl, fun hend => absurd (hsame.symm.trans hend) hstopped⟩
    | false =>
      cases resetting with
      | true => exact ⟨_, _, .endResets hstage, rfl, nofun⟩
      | false => exact ⟨_, _, .endFrames hstage, rfl, nofun⟩
  | closing => exact ⟨_, _, .drawLast shot hstage, rfl, fun _ => rfl⟩
  | stopped => exact absurd hstage hstopped

theorem Turn.of_mayDraw (h : Turn m e m') (hdraw : m.stage.mayDraw = true) :
    m'.stage.mayDraw = true ∧ e ≠ .endFrames ∨
      e = .endFrames ∧ m.stage = .ending false false ∧ m' = { m with stage := .closing } := by
  cases h with
  | read depths hstage hpassing hpoll => exact .inl ⟨hdraw, nofun⟩
  | @pass s rest hpassing =>
    obtain ⟨-, -, -, hsame⟩ := passOn_same m s rest
    exact .inl ⟨hsame ▸ hdraw, nofun⟩
  | reset now hstage => exact .inl ⟨hdraw, nofun⟩
  | draw shot hstage => exact .inl ⟨hdraw, nofun⟩
  | cancel hstage => exact .inl ⟨rfl, nofun⟩
  | endPolling hstage hpassing => exact .inl ⟨rfl, nofun⟩
  | endResets hstage => exact .inl ⟨rfl, nofun⟩
  | endFrames hstage => exact .inr ⟨rfl, hstage, rfl⟩
  | drawLast shot hstage =>
    rw [hstage] at hdraw
    cases hdraw

theorem Turn.of_not_mayDraw (h : Turn m e m') (ho : m.Orderly) (hdraw : m.stage.mayDraw = false) :
    m.stage = .closing ∧ ∃ shot, e = .drawLast shot ∧
      m' = { m.drawFrame shot with stage := .stopped } := by
  have hended : m.stage = .closing ∨ m.stage = .stopped := by
    cases hstage : m.stage with
    | closing => exact .inl rfl
    | stopped => exact .inr rfl
    | _ => simp [hstage, Stage.mayDraw] at hdraw
  have hpassing : m.passing = [] := by
    apply ho.passing
    rcases hended with hended | hended <;> rw [hended] <;> rfl
  cases h with
  | pass hsome =>
    rw [hpassing] at hsome
    cases hsome
  | reset now hreset => rcases hended with hended | hended <;> simp [hended, Stage.mayReset] at hreset
  | draw shot hstage => simp [hdraw] at hstage
  | drawLast shot hstage => exact ⟨hstage, shot, rfl, rfl⟩
  | read _ hstage _ _ => simp [hstage, Stage.mayDraw] at hdraw
  | cancel hstage => simp [hstage, Stage.mayDraw] at hdraw
  | endPolling hstage _ => simp [hstage, Stage.mayDraw] at hdraw
  | endResets hstage => simp [hstage, Stage.mayDraw] at hdraw
  | endFrames hstage => simp [hstage, Stage.mayDraw] at hdraw

theorem Orderly.not_turn (ho : m.Orderly) (hstopped : m.stage = .stopped) : ¬ Turn m e m' := by
  intro hturn
  obtain ⟨hclosing, -⟩ := hturn.of_not_mayDraw ho (by rw [hstopped]; rfl)
  rw [hstopped] at hclosing
  cases hclosing

theorem Orderly.step?_eq_none (ho : m.Orderly) (hstopped : m.stage = .stopped) (e : Event) :
    m.step? e = none := by
  rw [Option.eq_none_iff_forall_ne_some]
  intro m' hstep
  exact ho.not_turn hstopped (step?_turn hstep)

theorem Orderly.run (ho : m.Orderly) (hrun : m.run? events = some m') : m'.Orderly := by
  induction events generalizing m with
  | nil =>
    cases hrun
    exact ho
  | cons e events ih =>
    obtain ⟨next, hstep, hrest⟩ := run?_cons_eq_some_iff.mp hrun
    exact ih ((step?_turn hstep).orderly ho) hrest

theorem run_toGo (hstage : m.stage ≠ .running) (hrun : m.run? events = some m') :
    m'.stage ≠ .running ∧ events.countP Event.isWork + m'.toGo = m.toGo := by
  induction events generalizing m with
  | nil =>
    cases hrun
    exact ⟨hstage, Nat.zero_add _⟩
  | cons e events ih =>
    obtain ⟨next, hstep, hrest⟩ := run?_cons_eq_some_iff.mp hrun
    obtain ⟨hnext, hone⟩ := (step?_turn hstep).toGo hstage
    obtain ⟨hstage', hmore⟩ := ih hnext hrest
    refine ⟨hstage', ?_⟩
    rw [← List.singleton_append, List.countP_append]
    omega

theorem Orderly.exists_rest (ho : m.Orderly) (hrunning : m.stage ≠ .running)
    (hstopped : m.stage ≠ .stopped) (shot : Shot) :
    ∃ more m', m.run? (more ++ [.drawLast shot]) = some m' ∧ m'.stage = .stopped := by
  obtain ⟨n, hn⟩ : ∃ n, m.toGo = n := ⟨_, rfl⟩
  -- Each event of work leaves one less to do, and there is one until the monitor has stopped.
  induction n generalizing m with
  | zero => exact absurd (ho.toGo_eq_zero_iff.mp hn) hstopped
  | succ n ih =>
    obtain ⟨e, next, hturn, hwork, hlast⟩ := exists_work hrunning hstopped shot
    obtain ⟨hnext, hone⟩ := hturn.toGo hrunning
    have hless : next.toGo = n := by
      simp only [List.countP_singleton, hwork, if_true] at hone
      omega
    by_cases hend : next.stage = .stopped
    · obtain rfl := hlast hend
      exact ⟨[], next, run?_cons_eq_some_iff.mpr ⟨next, hturn.step?, rfl⟩, hend⟩
    · obtain ⟨more, m', hrun, hm'⟩ := ih (hturn.orderly ho) hnext hend hless
      exact ⟨e :: more, m', run?_cons_eq_some_iff.mpr ⟨next, hturn.step?, hrun⟩, hm'⟩

theorem Orderly.exists_run_stopped (ho : m.Orderly) (hstopped : m.stage ≠ .stopped) (shot : Shot) :
    ∃ more m', m.run? (more ++ [.drawLast shot]) = some m' ∧ m'.stage = .stopped := by
  by_cases hrunning : m.stage = .running
  · have hcancel : Turn m .cancel { m with stage := .ending true true } := .cancel hrunning
    obtain ⟨more, m', hrun, hm'⟩ := (hcancel.orderly ho).exists_rest nofun nofun shot
    exact ⟨.cancel :: more, m', run?_cons_eq_some_iff.mpr ⟨_, hcancel.step?, hrun⟩, hm'⟩
  · exact ho.exists_rest hrunning hstopped shot

theorem Orderly.run_closing (ho : m.Orderly) (hclosing : m.stage = .closing)
    (hrun : m.run? events = some m') (hstopped : m'.stage = .stopped) :
    ∃ shot, events = [.drawLast shot] ∧ m' = { m.drawFrame shot with stage := .stopped } := by
  cases events with
  | nil =>
    cases hrun
    rw [hclosing] at hstopped
    cases hstopped
  | cons e events =>
    obtain ⟨next, hstep, hrest⟩ := run?_cons_eq_some_iff.mp hrun
    have hturn := step?_turn hstep
    have ho' := hturn.orderly ho
    obtain ⟨-, shot, rfl, hnext⟩ := hturn.of_not_mayDraw ho (by rw [hclosing]; rfl)
    have hstage : next.stage = .stopped := by rw [hnext]
    cases events with
    | nil =>
      cases hrest
      exact ⟨shot, rfl, hnext⟩
    | cons e' events =>
      obtain ⟨after, hstep', -⟩ := run?_cons_eq_some_iff.mp hrest
      exact absurd (step?_turn hstep') (ho'.not_turn hstage)

theorem Orderly.run_stopped (ho : m.Orderly) (hdraw : m.stage.mayDraw = true)
    (hrun : m.run? events = some m') (hstopped : m'.stage = .stopped) :
    ∃ before shot last, events = before ++ [.endFrames, .drawLast shot] ∧ .endFrames ∉ before ∧
      m.run? before = some last ∧ last.stage = .ending false false ∧
      m' = { last.drawFrame shot with stage := .stopped } := by
  induction events generalizing m with
  | nil =>
    cases hrun
    rw [hstopped] at hdraw
    cases hdraw
  | cons e events ih =>
    obtain ⟨next, hstep, hrest⟩ := run?_cons_eq_some_iff.mp hrun
    have hturn := step?_turn hstep
    have ho' := hturn.orderly ho
    -- Either rendering goes on, or this is the event that tells it to end.
    rcases hturn.of_mayDraw hdraw with ⟨hnext, hne⟩ | ⟨rfl, hending, rfl⟩
    · obtain ⟨before, shot, last, rfl, hnone, hbefore, hlast⟩ := ih ho' hnext hrest
      refine ⟨e :: before, shot, last, rfl, ?_, ?_, hlast⟩
      · simp [hne.symm, hnone]
      · exact run?_cons_eq_some_iff.mpr ⟨next, hstep, hbefore⟩
    · obtain ⟨shot, rfl, hlast⟩ := ho'.run_closing rfl hrest hstopped
      exact ⟨[], shot, m, rfl, List.not_mem_nil, rfl, hending, hlast⟩

theorem Fresh.recorded (h : m.Fresh) (hrun : m.run? events = some m')
    (hreadings : ∀ depths ∈ made events, depths.length = m.poller.sources.length)
    (hpassing : m'.passing = []) (hwaiting : ∀ b ∈ m'.batch, b.waiting = #[]) :
    m'.iterations = (made events).length ∧
      m'.registry.SameLifetimes (m.registry.recordAll ((made events).flatMap m.poller.samples)) := by
  have hfollows := (Follows.of_idle h.laid h.iterations h.passing).run hrun hreadings
  have hlifetimes := hfollows.lifetimes
  rw [hpassing, settled_of_waiting hwaiting, settled_of_waiting h.waiting] at hlifetimes
  exact ⟨hfollows.iterations, hlifetimes⟩

/-- How the events of a monitor end: polling and resets have ended, rendering is told to end, and one frame
is drawn on the registry that the monitor is left with. -/
structure LastFrame (m : Monitor γ) (events : List Event) (m' : Monitor γ) (before : List Event)
    (shot : Shot) (last : Monitor γ) : Prop where
  events : events = before ++ [.endFrames, .drawLast shot]
  once : .endFrames ∉ before
  run : m.run? before = some last
  ended : last.stage = .ending false false
  output : m'.output = last.output.write shot.ending
    (last.screen.render ⟨last.root, shot.files⟩ shot.clock (some last.poller.gauge)
      (last.registry.snapshot shot.now) last.counters).1
  registry : m'.registry = last.registry
  done : ∀ e, m'.step? e = none

theorem Fresh.lastFrame (h : m.Fresh) (hrun : m.run? events = some m') (hstopped : m'.stage = .stopped) :
    ∃ before shot last, LastFrame m events m' before shot last := by
  have hdraw : m.stage.mayDraw = true := by
    rw [h.stage]
    rfl
  have hdone := (h.orderly.run hrun).step?_eq_none hstopped
  obtain ⟨before, shot, last, hevents, hbefore, hlast, hended, rfl⟩ :=
    h.orderly.run_stopped hdraw hrun hstopped
  exact ⟨before, shot, last, hevents, hbefore, hlast, hended, rfl, rfl, hdone⟩

/-- Every monitor that starts is fresh. A fresh one can be stopped at any moment, and from then on only resets and frames put its end off. A run
to the end closes with one frame, whose snapshot shows every sample of every iteration and as many samples
as the registry is left with. -/
theorem last_frame_shows_all (h : m.Fresh) (hrun : m.run? events = some m')
    (hreadings : ∀ depths ∈ made events, depths.length = m.poller.sources.length) :
    (∀ s files (draws : EntityKey → γ × γ) now started,
      start s files draws now = .ok started → started.Fresh) ∧
    (m'.stage ≠ .stopped →
      ∀ shot, ∃ more m'', m'.run? (more ++ [.drawLast shot]) = some m'' ∧ m''.stage = .stopped) ∧
    (m'.stage ≠ .running →
      ∀ more m'', m'.run? more = some m'' → more.countP Event.isWork ≤ m'.toGo ∧
        (m''.stage = .stopped ↔ more.countP Event.isWork = m'.toGo)) ∧
    (m'.stage = .stopped → ∃ before shot last, LastFrame m events m' before shot last ∧
      let samples := (made events).flatMap m.poller.samples
      let snapshot := last.registry.snapshot shot.now
      m'.iterations = (made events).length ∧
      snapshot.lifetimes = ((m.registry.recordAll samples).snapshot shot.now).lifetimes ∧
      snapshot.totalCount = m'.registry.totalCount ∧
      m'.registry.totalCount = m.registry.totalCount + samples.length) := by
  have horderly := h.orderly.run hrun
  refine ⟨fun _ _ _ _ _ => start_fresh, horderly.exists_run_stopped, ?_, ?_⟩
  · intro hstage more m'' hmore
    obtain ⟨-, htogo⟩ := run_toGo hstage hmore
    rw [← (horderly.run hmore).toGo_eq_zero_iff]
    omega
  · intro hstopped
    obtain ⟨before, shot, last, hlast⟩ := h.lastFrame hrun hstopped
    obtain ⟨hpassing, hwaiting⟩ := horderly (by rw [hstopped]; rfl)
    obtain ⟨hiterations, hrecorded⟩ := h.recorded hrun hreadings hpassing hwaiting
    refine ⟨before, shot, last, hlast, hiterations, ?_, ?_, ?_⟩
    · rw [← hlast.registry]
      exact hrecorded.snapshot shot.now
    · rw [Registry.totalCount_snapshot, hlast.registry]
    · rw [hrecorded.totalCount]
      exact Registry.totalCount_recordAll h.indexed _

def oneDisk : Monitor (List Nat) :=
  ofPlan namedTwice ⟨.ofParts [⟨.device disk, .file 1⟩] [] .all, []⟩ (.ofGroups [])
    (fun _ => ([], [])) 0

theorem oneDisk_fresh : oneDisk.Fresh where
  laid := Poller.ofParts_laid _ _ _ nofun
  indexed := Poller.register_indexed _ (Registry.empty_indexed _ _ _)
  waiting := by
    intro b hb
    cases hb
    rfl
  passing := rfl
  iterations := rfl
  stage := rfl

def closingShot : Shot := ⟨7, .empty, "", .written⟩

def stopInside : List Event :=
  [.read [3], .cancel, .pass, .endPolling, .reset 5, .endResets, .endFrames, .drawLast closingShot]

theorem last_frame_shows_all_inside : ∃ m' last : Monitor (List Nat),
    oneDisk.Fresh ∧ oneDisk.run? stopInside = some m' ∧ m'.stage = .stopped ∧ m'.iterations = 1 ∧
      (∀ depths ∈ made stopInside, depths.length = oneDisk.poller.sources.length) ∧
      m'.output.frames = 1 ∧ m'.output.latest = some (last.screen.render ⟨last.root, closingShot.files⟩
        closingShot.clock (some last.poller.gauge) (last.registry.snapshot closingShot.now)
        last.counters).1 ∧
      m'.registry = last.registry ∧ (last.registry.snapshot closingShot.now).totalCount = 1 ∧
      ∀ e, m'.step? e = none := by
  have hreadings : ∀ depths ∈ made stopInside, depths.length = oneDisk.poller.sources.length := by
    simp [made, stopInside, oneDisk, ofPlan, Poller.ofParts]
  obtain ⟨m', hrun, hstopped, hframes, hopen⟩ : ∃ m', oneDisk.run? stopInside = some m' ∧
      m'.stage = .stopped ∧ m'.output.frames = 1 ∧ m'.output.isOpen = true := ⟨_, rfl, rfl, rfl, rfl⟩
  obtain ⟨-, -, -, hend⟩ := last_frame_shows_all oneDisk_fresh hrun hreadings
  obtain ⟨before, shot, last, hlast, hiterations, -, hshown, htotal⟩ := hend hstopped
  obtain rfl : closingShot = shot := by
    have hevents := congrArg List.getLast? hlast.events
    simpa [stopInside] using hevents
  refine ⟨m', last, oneDisk_fresh, hrun, hstopped, hiterations, hreadings, hframes, ?_, hlast.registry, ?_,
    hlast.done⟩
  · -- Writing does not open an output.
    have hbefore : last.output.isOpen = true := by
      rw [hlast.output, Frame.Output.write] at hopen
      split at hopen
      next h => exact h
      next h => exact hopen
    rw [hlast.output, Frame.Output.write, if_pos hbefore]
    rfl
  · have hnone : oneDisk.registry.totalCount = 0 := Registry.totalCount_register _ (.device disk)
    have hone : ((made stopInside).flatMap oneDisk.poller.samples).length = 1 := rfl
    rw [hshown, htotal, hnone, hone]

end QuantileMonitor.Monitor
