import QuantileMonitor.Proofs.Ingest.Staleness
import QuantileMonitor.Proofs.Monitor.Polling
import QuantileMonitor.Proofs.Registry.History
import QuantileMonitor.Proofs.Window.Replay

/-!
# Warm-up

The batch of a monitor counts down the samples of all entities together, each reservoir fills with the
samples of one. An iteration has as many samples as there are cells and one or more of each entity, so
the countdown ends with the iteration in which the last reservoir fills.
-/

namespace QuantileMonitor.Monitor

open Ingest Poll Quantile
open Registry (recorded)

variable {γ : Type} [Draws γ]

/-- A run of a monitor as its batch sees it: what was fed to the batch, and the samples of all
iterations, of which some were not passed on yet. -/
structure Fed (start : Monitor γ) (first : Batch) (events : List Event) (feed : List Feed)
    (m : Monitor γ) : Prop where
  poller : ∃ gauge, m.poller = { start.poller with gauge }
  batch : ∃ b, m.batch = some b ∧ feed.foldl batched (first, start.registry) = (b, m.registry)
  entities : (pushed feed ++ m.passing).map (·.entity) =
    (List.replicate m.iterations start.poller.polled).flatten
  passing : m.passing.length ≤ start.poller.polled.length
  resets : ∀ now, Feed.reset now ∈ feed → Event.reset now ∈ events

theorem resets_concat {events : List Event} {feed : List Feed}
    (h : ∀ now, Feed.reset now ∈ feed → Event.reset now ∈ events) {e : Event} {f : Feed}
    (hlast : ∀ now, f = .reset now → e = .reset now) (now : Instant)
    (hmem : .reset now ∈ feed ++ [f]) : .reset now ∈ events ++ [e] := by
  rcases List.mem_append.mp hmem with hmem | hmem
  · exact List.mem_append_left _ (h now hmem)
  · rw [hlast now (List.mem_singleton.mp hmem).symm]
    exact List.mem_append_right _ (List.mem_singleton_self _)

namespace Fed

variable {start m m' : Monitor γ} {first : Batch} {events : List Event} {feed : List Feed}

theorem of_idle (hbatch : start.batch = some first) (hiterations : start.iterations = 0)
    (hpassing : start.passing = []) : Fed start first [] [] start where
  poller := ⟨start.poller.gauge, rfl⟩
  batch := ⟨first, hbatch, rfl⟩
  entities := by
    rw [hpassing, hiterations]
    rfl
  passing := by
    rw [hpassing]
    exact Nat.zero_le _
  resets _ hmem := absurd hmem List.not_mem_nil

theorem of_same (h : Fed start first events feed m) (e : Event) (hpoller : m'.poller = m.poller)
    (hbatch : m'.batch = m.batch) (hpassing : m'.passing = m.passing)
    (hiterations : m'.iterations = m.iterations) (hregistry : m'.registry = m.registry) :
    Fed start first (events ++ [e]) feed m' where
  poller := hpoller ▸ h.poller
  batch := by
    rw [hbatch, hregistry]
    exact h.batch
  entities := by
    rw [hpassing, hiterations]
    exact h.entities
  passing := hpassing ▸ h.passing
  resets now hmem := List.mem_append_left _ (h.resets now hmem)

theorem read (h : Fed start first events feed m) (hpassing : m.passing = []) {depths : List Nat}
    {samples : List Sample} {poller : Poller} (hpoll : m.poller.poll depths = some (samples, poller))
    (hdepths : depths.length = start.poller.sources.length) :
    Fed start first (events ++ [.read depths]) feed (m.beginning samples poller) := by
  obtain ⟨gauge, hpoller⟩ := h.poller
  rw [hpoller] at hpoll
  obtain ⟨hsamples, shown, hnext⟩ := Poller.entities_poll hpoll hdepths
  have hpolled : samples.map (·.entity) = start.poller.polled := hsamples
  have hentities := h.entities
  rw [hpassing, List.append_nil] at hentities
  constructor
  case poller => exact ⟨shown, hnext⟩
  case batch => exact h.batch
  case entities =>
    rw [beginning, List.map_append, hentities, hpolled, List.replicate_succ', List.flatten_append,
      List.flatten_singleton]
  case passing => rw [beginning, ← hpolled, List.length_map]
  case resets => exact fun now hmem => List.mem_append_left _ (h.resets now hmem)

theorem pass (h : Fed start first events feed m) {s : Sample} {rest : List Sample}
    (hpassing : m.passing = s :: rest) :
    Fed start first (events ++ [.pass]) (feed ++ [.push s]) (m.passOn s rest) := by
  obtain ⟨root, poller, batch, passing, iterations, registry, counters, screen, output, stage⟩ := m
  obtain ⟨b, hbatch, hfold⟩ := h.batch
  cases hbatch
  cases hpassing
  constructor
  case poller => exact h.poller
  case batch =>
    refine ⟨(b.push s registry).2.1, rfl, ?_⟩
    rw [List.foldl_append, hfold]
    rfl
  case entities =>
    rw [pushed_concat, List.append_assoc]
    exact h.entities
  case passing => exact Nat.le_of_succ_le h.passing
  case resets =>
    refine resets_concat h.resets ?_
    rintro _ ⟨⟩

theorem reset (h : Fed start first events feed m) (now : Instant) :
    Fed start first (events ++ [.reset now]) (feed ++ [.reset now])
      { m with registry := m.registry.resetIntervals now } := by
  obtain ⟨b, hbatch, hfold⟩ := h.batch
  constructor
  case poller => exact h.poller
  case batch =>
    refine ⟨b, hbatch, ?_⟩
    rw [List.foldl_append, hfold]
    rfl
  case entities =>
    rw [pushed_concat, Feed.pushed, List.append_nil]
    exact h.entities
  case passing => exact h.passing
  case resets =>
    refine resets_concat h.resets ?_
    rintro _ ⟨⟩
    rfl

theorem flush (h : Fed start first events feed m) (e : Event) (stage : Stage) :
    Fed start first (events ++ [e]) (feed ++ [.flush]) { m.flush with stage } := by
  obtain ⟨b, hbatch, hfold⟩ := h.batch
  rw [flush_of_batch hbatch]
  constructor
  case poller => exact h.poller
  case batch =>
    refine ⟨(b.flush m.registry).1, rfl, ?_⟩
    rw [List.foldl_append, hfold]
    rfl
  case entities =>
    rw [pushed_concat, Feed.pushed, List.append_nil]
    exact h.entities
  case passing => exact h.passing
  case resets =>
    refine resets_concat h.resets ?_
    rintro _ ⟨⟩

theorem turn (h : Fed start first events feed m) {e : Event} (hturn : Turn m e m')
    (hmade : ∀ depths ∈ made [e], depths.length = start.poller.sources.length) :
    ∃ fed, Fed start first (events ++ [e]) fed m' := by
  cases hturn with
  | read depths hstage hpassing hpoll =>
    exact ⟨feed, h.read hpassing hpoll (hmade depths List.mem_cons_self)⟩
  | pass hpassing => exact ⟨_, h.pass hpassing⟩
  | reset now hstage => exact ⟨_, h.reset now⟩
  | endPolling hstage hpassing => exact ⟨_, h.flush _ _⟩
  | draw shot hstage => exact ⟨feed, h.of_same _ rfl rfl rfl rfl rfl⟩
  | drawLast shot hstage => exact ⟨feed, h.of_same _ rfl rfl rfl rfl rfl⟩
  | cancel hstage => exact ⟨feed, h.of_same _ rfl rfl rfl rfl rfl⟩
  | endResets hstage => exact ⟨feed, h.of_same _ rfl rfl rfl rfl rfl⟩
  | endFrames hstage => exact ⟨feed, h.of_same _ rfl rfl rfl rfl rfl⟩

theorem run (h : Fed start first events feed m) {more : List Event} (hrun : m.run? more = some m')
    (hmade : ∀ depths ∈ made more, depths.length = start.poller.sources.length) :
    ∃ fed, Fed start first (events ++ more) fed m' := by
  induction more generalizing m events feed with
  | nil =>
    cases hrun
    exact ⟨feed, (List.append_nil events).symm ▸ h⟩
  | cons e more ih =>
    obtain ⟨next, hstep, hrest⟩ := run?_cons_eq_some_iff.mp hrun
    rw [made_cons] at hmade
    obtain ⟨fed, hnext⟩ := h.turn (step?_turn hstep) fun depths hd =>
      hmade depths (List.mem_append_left _ hd)
    rw [List.append_cons]
    exact ih hnext hrest fun depths hd => hmade depths (List.mem_append_right _ hd)

theorem length_entities (h : Fed start first events feed m) :
    (pushed feed).length + m.passing.length = m.iterations * start.poller.polled.length := by
  have hlength := congrArg List.length h.entities
  simpa using hlength

end Fed

theorem le_count_of_rounds {keys met : List EntityKey} {key : EntityKey} {c n : Nat}
    (hkey : key ∈ keys) (hmet : met <+: (List.replicate n keys).flatten)
    (hlength : c * keys.length ≤ met.length) : c ≤ met.count key := by
  have hn : c ≤ n := by
    have hle := hmet.length_le
    rw [List.length_flatten, List.map_replicate, List.sum_replicate, smul_eq_mul] at hle
    exact Nat.le_of_mul_le_mul_right (hlength.trans hle) (List.length_pos_of_mem hkey)
  have hrounds : (List.replicate c keys).flatten <+: (List.replicate n keys).flatten := by
    obtain ⟨d, rfl⟩ := Nat.exists_eq_add_of_le hn
    rw [List.replicate_add, List.flatten_append]
    exact List.prefix_append _ _
  -- A prefix that is long enough begins with `c` whole rounds, and each of them has the key.
  have hfirst : (List.replicate c keys).flatten <+: met :=
    List.prefix_of_prefix_length_le hrounds hmet (by simpa using hlength)
  calc c ≤ c * keys.count key := Nat.le_mul_of_pos_right c (List.count_pos_iff.mpr hkey)
    _ = (List.replicate c keys).flatten.count key := by simp [List.count_flatten]
    _ ≤ met.count key := hfirst.sublist.count_le key

theorem full_of_samples {capacity : Nat} {draws : EntityKey → γ × γ} {now : Instant}
    {all : List Registry.Call} {key : EntityKey} {stats : EntityStats γ}
    (hstats : ((Registry.empty (.reservoir capacity) draws now).run all).stats? key = some stats)
    (hn : capacity ≤ ((recorded all).map (·.entity)).count key) :
    stats.lifetime.estimator.Full capacity ∧
      ((∀ later, .resetIntervals later ∉ all) → stats.interval.estimator.Full capacity) := by
  rw [Registry.stats?_run_empty] at hstats
  obtain ⟨-, hreplay⟩ := Option.ite_none_right_eq_some.mp hstats
  cases hreplay
  have hlength : (Change.recorded (Registry.history key all)).length =
      ((recorded all).map (·.entity)).count key := by
    rw [Registry.recorded_history, List.length_map, ← List.countP_eq_length_filter, List.count,
      List.countP_map]
    exact List.countP_congr fun s _ => by simp
  rw [← hlength] at hn
  constructor
  · exact (EntityStats.lifetime_replay_shows _ _ _).estimator.full hn
  · -- Without a reset the interval has what the lifetime has.
    intro hnone
    have hinterval := (EntityStats.interval_replay_shows (.reservoir capacity) (draws key)
      (Registry.history key all)).estimator
    rw [Change.latest_of_no_reset] at hinterval
    · exact hinterval.full hn
    · intro hmem
      obtain ⟨later, hlater⟩ := Registry.reset_mem_history hmem
      exact hnone later hlater

theorem lt_rounds_iff {c cells n waiting iterations : Nat} (hcells : 1 ≤ cells)
    (hsum : n + waiting = iterations * cells) (hwaiting : waiting ≤ cells) :
    n < c * cells ↔ iterations < c ∨ iterations = c ∧ waiting ≠ 0 := by
  rcases Nat.lt_trichotomy iterations c with hlt | rfl | hgt
  · have hnext : (iterations + 1) * cells ≤ c * cells := Nat.mul_le_mul_right cells hlt
    rw [Nat.succ_mul] at hnext
    omega
  · omega
  · have hnext : (c + 1) * cells ≤ iterations * cells := Nat.mul_le_mul_right cells hgt
    rw [Nat.succ_mul] at hnext
    omega

structure Warming (flushEvery capacity : Nat) (keys : List EntityKey) (draws : EntityKey → γ × γ)
    (start : Instant) (events : List Event) (calls : List Registry.Call) (b : Batch)
    (m : Monitor γ) : Prop where
  batch : m.batch = some b
  bounded : Bounded flushEvery (capacity * keys.length) ((recorded calls).length + b.pending) b
  registry : m.registry =
    (Registry.empty (.reservoir capacity) draws start).run (keys.map .register ++ calls)
  rounds : (recorded calls).length + b.pending + m.passing.length = m.iterations * keys.length
  passing : m.passing.length ≤ keys.length
  met : (recorded calls).map (·.entity) <+: (List.replicate m.iterations keys).flatten
  known : ∀ c ∈ calls, c.keys = c.samples.map (·.entity)
  resets : ∀ now, .resetIntervals now ∈ calls → Event.reset now ∈ events

theorem Fed.warming {start m : Monitor γ} {first : Batch} {flushEvery capacity : Nat}
    {draws : EntityKey → γ × γ} {now : Instant} {events : List Event} {feed : List Feed}
    (h : Fed start first events feed m)
    (hfirst : first = .empty flushEvery (capacity * start.poller.polled.length))
    (hregistry : start.registry =
      (Registry.empty (.reservoir capacity) draws now).run (start.poller.polled.map .register)) :
    ∃ calls b, Warming flushEvery capacity start.poller.polled draws now events calls b m := by
  obtain ⟨b, hb, hfold⟩ := h.batch
  have haccount : Account start.registry (calls (first, start.registry) feed) (pushed feed)
      (b, m.registry) := by
    rw [← hfold, hfirst]
    exact (empty_account _ _ _).run feed
  have hbounded : Bounded flushEvery (capacity * start.poller.polled.length)
      (pushed feed).length b := by
    have hend := (hfirst ▸ empty_bounded _ _ : Bounded flushEvery _ 0 first).run start.registry feed
    rwa [hfold, Nat.zero_add] at hend
  have hlength := haccount.length
  refine ⟨calls (first, start.registry) feed, b, ?_⟩
  constructor
  case batch => exact hb
  case bounded => rwa [← hlength] at hbounded
  case registry =>
    rw [Registry.run_append, ← hregistry]
    exact haccount.registry
  case rounds =>
    rw [hlength]
    exact h.length_entities
  case passing => exact h.passing
  case met =>
    rw [← h.entities, ← haccount.order, List.append_assoc, List.map_append]
    exact List.prefix_append _ _
  case known => exact fun c => keys_of_mem_calls
  case resets => exact fun later hmem => h.resets later (reset_of_mem_calls hmem)

namespace Warming

variable {flushEvery capacity : Nat} {keys : List EntityKey} {draws : EntityKey → γ × γ}
  {start : Instant} {events : List Event} {calls : List Registry.Call} {b : Batch} {m : Monitor γ}

theorem inWarmup_iff (h : Warming flushEvery capacity keys draws start events calls b m)
    (hcells : 1 ≤ keys.length) : b.inWarmup = true ↔
      m.iterations < capacity ∨ m.iterations = capacity ∧ m.passing ≠ [] := by
  rw [h.bounded.inWarmup_iff, lt_rounds_iff hcells h.rounds h.passing, ne_eq,
    List.length_eq_zero_iff]

theorem flushes (h : Warming flushEvery capacity keys draws start events calls b m)
    (hle : m.iterations ≤ capacity) :
    b.pending = 0 ∧ b.flushes = m.registry.totalCount ∧
      b.flushes + m.passing.length = m.iterations * keys.length := by
  have hcount := Nat.mul_le_mul_right keys.length hle
  have hrounds := h.rounds
  have hlate := h.bounded.late
  have hflushes := h.bounded.early (by omega)
  have htotal : m.registry.totalCount = (recorded calls).length := by
    rw [h.registry, Registry.totalCount_run (Registry.empty_indexed _ _ _), Registry.recorded_register]
    exact Nat.zero_add _
  omega

theorem mem_seen_iff (h : Warming flushEvery capacity keys draws start events calls b m)
    (key : EntityKey) : key ∈ Registry.seen (keys.map .register ++ calls) ↔ key ∈ keys := by
  rw [Registry.seen, List.flatMap_append, List.mem_append]
  constructor
  · rintro (hkey | hkey)
    · simpa [List.flatMap_map, Registry.Call.keys] using hkey
    · obtain ⟨c, hc, hin⟩ := List.mem_flatMap.mp hkey
      rw [h.known c hc] at hin
      obtain ⟨s, hs, rfl⟩ := List.mem_map.mp hin
      have hmet : s.entity ∈ (recorded calls).map (·.entity) :=
        List.mem_map_of_mem (List.mem_flatMap.mpr ⟨c, hc, hs⟩)
      obtain ⟨round, hround, hkey⟩ := List.mem_flatten.mp (h.met.subset hmet)
      rwa [List.eq_of_mem_replicate hround] at hkey
  · intro hkey
    exact .inl (by simpa [List.flatMap_map, Registry.Call.keys] using hkey)

theorem mem_keys_iff (h : Warming flushEvery capacity keys draws start events calls b m)
    (key : EntityKey) : key ∈ m.registry.keys ↔ key ∈ keys := by
  rw [h.registry, Registry.mem_keys_run (Registry.empty_indexed _ _ _), h.mem_seen_iff]
  simp [Registry.keys, Registry.empty]

theorem stats?_isSome_iff (h : Warming flushEvery capacity keys draws start events calls b m)
    (key : EntityKey) : (m.registry.stats? key).isSome ↔ key ∈ keys := by
  have hindexed : m.registry.Indexed := by
    rw [h.registry]
    exact Registry.run_indexed (Registry.empty_indexed _ _ _) _
  rw [hindexed.stats?_isSome_iff, h.mem_keys_iff]

theorem full (h : Warming flushEvery capacity keys draws start events calls b m)
    (hdone : b.inWarmup = false) {key : EntityKey} {stats : EntityStats γ}
    (hstats : m.registry.stats? key = some stats) :
    stats.lifetime.estimator.Full capacity ∧
      ((∀ now, .reset now ∉ events) → stats.interval.estimator.Full capacity) := by
  have hkey : key ∈ keys := by
    rw [h.registry, Registry.stats?_run_empty] at hstats
    exact (h.mem_seen_iff key).mp (Option.ite_none_right_eq_some.mp hstats).1
  have hlength : capacity * keys.length ≤ (recorded calls).length := by
    have hlate := h.bounded.late
    have hwarm := mt h.bounded.inWarmup_iff.mpr (Bool.eq_false_iff.mp hdone)
    omega
  have hn : capacity ≤ ((recorded (keys.map .register ++ calls)).map (·.entity)).count key := by
    rw [Registry.recorded_register]
    exact le_count_of_rounds hkey h.met (by rwa [List.length_map])
  rw [h.registry] at hstats
  obtain ⟨hlifetime, hinterval⟩ := full_of_samples hstats hn
  refine ⟨hlifetime, fun hnone => hinterval fun now hmem => ?_⟩
  rcases List.mem_append.mp hmem with hmem | hmem
  · simp at hmem
  · exact hnone now (h.resets now hmem)

end Warming

/-- The warm-up of a batch over reservoirs ends with the iteration that has the number of their slots.
Until then each sample was recorded with a flush of its own, and from then on the lifetime reservoirs of
all entities are full, and those of the intervals too if no reset happened. All polled entities, and no
others, are registered and have statistics. -/
theorem warmup_ends_when_full {s : Settings} {capacity : Nat} (hperiod : s.pollPeriod = none)
    (hstrategy : s.strategy = .reservoir capacity) {sources : List Source}
    {groups : List Poll.Group} (hcells : 1 ≤ sources.length + groups.length)
    (scale : List (EntityKey × Nat)) (names : Device.Names) (draws : EntityKey → γ × γ)
    (now : Instant) {events : List Event} {m' : Monitor γ}
    (hrun : (ofPlan s ⟨.ofParts sources groups .all, scale⟩ names draws now).run? events = some m')
    (hreadings : ∀ depths ∈ made events, depths.length = sources.length) :
    let p := Poller.ofParts sources groups .all
    ∃ b, m'.batch = some b ∧
      (b.inWarmup = true ↔
        m'.iterations < capacity ∨ m'.iterations = capacity ∧ m'.passing ≠ []) ∧
      (m'.iterations ≤ capacity →
        b.pending = 0 ∧ b.flushes = m'.registry.totalCount ∧
          b.flushes + m'.passing.length = m'.iterations * p.entityCount) ∧
      (∀ key, key ∈ m'.registry.keys ↔ key ∈ p.keys) ∧
      (∀ key, (m'.registry.stats? key).isSome ↔ key ∈ p.keys) ∧
      (b.inWarmup = false → ∀ key stats, m'.registry.stats? key = some stats →
        stats.lifetime.estimator.Full capacity ∧
          ((∀ later, .reset later ∉ events) → stats.interval.estimator.Full capacity)) := by
  intro p
  let m := ofPlan s ⟨p, scale⟩ names draws now
  have hpolled : m.poller.polled = p.keys := Poller.polled_ofParts sources groups
  have hlength : p.keys.length = p.entityCount := Poller.length_keys_ofParts sources groups .all
  have hbatch : m.batch = some (.empty s.flushEvery (capacity * p.entityCount)) := by
    simp [m, ofPlan, pollBatch, hperiod, hstrategy, Strategy.warmup]
  have hregistry : m.registry =
      (Registry.empty (.reservoir capacity) draws now).run (m.poller.polled.map .register) := by
    rw [hpolled, ← Poller.register_eq_run, ← hstrategy]
    rfl
  obtain ⟨feed, hfed⟩ := (Fed.of_idle hbatch rfl rfl).run hrun hreadings
  obtain ⟨calls, b, h⟩ := hfed.warming (by rw [hpolled, hlength]) hregistry
  rw [hpolled] at h
  rw [← hlength]
  exact ⟨b, h.batch, h.inWarmup_iff (hlength ▸ hcells), h.flushes, h.mem_keys_iff, h.stats?_isSome_iff,
    fun hdone key stats hstats => h.full hdone hstats⟩

theorem warmup_ends_when_full_two :
    let s : Settings := { mode := .queue, method := some .reservoir, reservoirSize := 2 }
    let sources : List Source := [⟨.device ⟨8⟩, .file 0⟩]
    let groups : List Poll.Group := [⟨.group 0, [0]⟩]
    let m := ofPlan s ⟨.ofParts sources groups .all, []⟩ (.ofGroups ["all"])
      (fun _ => (([], []) : List Nat × List Nat)) 0
    let events := [.read [3], .pass, .pass, .reset 5, .read [4], .pass, .pass]
    ∃ m' b, m.run? events = some m' ∧ m'.batch = some b ∧ b.inWarmup = false ∧ b.pending = 0 ∧
      b.flushes = 4 ∧ m'.registry.totalCount = 4 ∧
      ∃ stats r, m'.registry.stats? (.group 0) = some stats ∧ stats.lifetime.estimator = .reservoir r ∧
        r.isFull = true ∧ r.samples.size = 2 := by
  intro s sources groups m events
  obtain ⟨m', hrun, hiterations, hpassing⟩ :
      ∃ m', m.run? events = some m' ∧ m'.iterations = 2 ∧ m'.passing = [] := ⟨_, rfl, rfl, rfl⟩
  have hstrategy : s.strategy = .reservoir 2 := rfl
  have hcells : 1 ≤ sources.length + groups.length := by decide
  have hreadings : ∀ depths ∈ made events, depths.length = sources.length := by decide
  obtain ⟨b, hb, hwarm, hflushes, -, hstats, hfull⟩ :=
    warmup_ends_when_full rfl hstrategy hcells [] _ _ _ hrun hreadings
  obtain ⟨hpending, htotal, hcount⟩ := hflushes (by omega)
  have hdone : b.inWarmup = false := by
    rw [← Bool.not_eq_true, hwarm, hiterations, hpassing]
    simp
  rw [hpassing, hiterations] at hcount
  have hfour : b.flushes = 4 := hcount
  have hpolled : .group 0 ∈ (Poller.ofParts sources groups .all).keys := by decide
  obtain ⟨stats, hgroup⟩ := Option.isSome_iff_exists.mp ((hstats (.group 0)).mpr hpolled)
  obtain ⟨r, hr, hroom, hsize⟩ := (hfull hdone _ stats hgroup).1
  exact ⟨m', b, hrun, hb, hdone, hpending, hfour, htotal ▸ hfour, stats, r, hgroup, hr, hroom, hsize⟩

end QuantileMonitor.Monitor
