import QuantileMonitor.Monitor.Basic

/-! Starting a monitor. Queue depths are polled; for latencies nothing is there that could trace them. -/

namespace QuantileMonitor.Monitor

open Device Ingest

variable {γ : Type}

def groupNames (s : Settings) : List String := s.groups.map (·.name)

def frameOptions (s : Settings) (p : Plan) : Frame.Options where
  heading := s.mode.title
  view := if s.mode.isLatency then .latency else .queue
  percentiles := s.shownPercentiles
  showTop := s.showTop
  batch := s.batch
  interval := s.interval
  strategy := s.strategy.describe
  barWidth := s.barWidth
  fullScale := p.fullScale

/-- Without a poll period samples go through a batch, which warms up until every estimator is filled. -/
def pollBatch (s : Settings) (p : Plan) : Option Batch :=
  match s.pollPeriod with
  | some _ => none
  | none => some (.empty s.flushEvery (s.strategy.warmup * p.poller.entityCount))

def ofPlan (s : Settings) (p : Plan) (n : Names) (draws : EntityKey → γ × γ) (now : Instant) : Monitor γ where
  root := s.sysRoot
  poller := p.poller
  batch := pollBatch s p
  passing := []
  iterations := 0
  registry := p.poller.register (.empty s.strategy draws now)
  counters := .zero
  screen := .start (frameOptions s p) n
  output := .start
  stage := .running

def refuseTracing (t : LatencyTargets) : StartError := .noTracing t.origin t.numbers.length

def start (s : Settings) (files : Files) (draws : EntityKey → γ × γ) (now : Instant) :
    Except StartError (Monitor γ) := do
  s.check.mapError .settings
  let tree : SysTree := ⟨s.sysRoot, files⟩
  match s.mode with
  | .block => throw (refuseTracing (← blockTargets s tree))
  | .syscall => throw (refuseTracing (← syscallTargets s))
  | .queue =>
    let (p, n) := plan s tree (.ofGroups (groupNames s))
    return ofPlan s (← p) n draws now

/-- A second start of a monitor fails, at the latest when it wants the output. Names that it learns on
the way are kept, and what it was about to poll is registered. -/
def startAgain (m : Monitor γ) (s : Settings) (files : Files) : StartError × Monitor γ :=
  let (p, n) := plan s ⟨s.sysRoot, files⟩ m.screen.names
  let m := { m with screen := { m.screen with names := n } }
  match p with
  | .error e => (e, m)
  | .ok p => (.outputTaken, { m with registry := p.poller.register m.registry })

end QuantileMonitor.Monitor
