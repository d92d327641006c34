import QuantileMonitor.Monitor.Basic

/-! Events at their times: polls, resets and frames come with periods of their own, the first poll and
the first frame at the origin and the first reset after one interval. -/

namespace QuantileMonitor.Monitor

structure Change where
  time : Instant
  place : Place
  data : ByteArray

def filesAt (files : Files) (changes : List Change) (now : Instant) : Files :=
  ((changes.filter (·.time ≤ now)).mergeSort fun a b => a.time ≤ b.time).foldl
    (fun fs c => fs.write c.place c.data) files

def multiples (period : Span) (stop : Instant) : List Instant :=
  if period.nanoseconds = 0 then []
  else
    let n := (stop + period.nanoseconds - 1) / period.nanoseconds
    (List.range n).map (· * period.nanoseconds)

inductive Beat
  | poll
  | reset
  | draw

structure Timetable where
  pollPeriod : Span
  interval : Span
  framePeriod : Span

/-- Every beat before a time, in order; of beats at one time polls come first and frames last. -/
def Timetable.beats (t : Timetable) (stop : Instant) : List (Instant × Beat) :=
  let polls := (multiples t.pollPeriod stop).map (·, Beat.poll)
  let resets := ((multiples t.interval stop).drop 1).map (·, Beat.reset)
  let frames := (multiples t.framePeriod stop).map (·, Beat.draw)
  (polls ++ resets ++ frames).mergeSort fun a b => a.1 ≤ b.1

structure Agenda where
  poll : Instant
  reset : Instant
  draw : Instant

def nextMultiple (period : Span) (now : Instant) : Instant :=
  if period.nanoseconds = 0 then now else (now / period.nanoseconds + 1) * period.nanoseconds

namespace Agenda

def start (t : Timetable) : Agenda := ⟨0, t.interval.nanoseconds, 0⟩

def earliest (a : Agenda) : Instant := min a.poll (min a.reset a.draw)

/-- The earliest beat, once its time has come; beats that were missed meanwhile are left out. -/
def take (a : Agenda) (t : Timetable) (now : Instant) : Option Beat × Agenda :=
  if now < a.earliest then (none, a)
  else if a.poll = a.earliest then (some .poll, { a with poll := nextMultiple t.pollPeriod now })
  else if a.reset = a.earliest then (some .reset, { a with reset := nextMultiple t.interval now })
  else (some .draw, { a with draw := nextMultiple t.framePeriod now })

end Agenda

variable {γ : Type}

def beatEvents (m : Monitor γ) (shot : Shot) : Beat → List Event
  | .poll => m.iterationEvents (m.poller.readings shot.files)
  | .reset => [.reset shot.now]
  | .draw => [.draw shot]

def play [Draws γ] (shotAt : Instant → Shot) (m : Monitor γ) (beats : List (Instant × Beat)) : Option (Monitor γ) :=
  beats.foldlM (fun m (now, beat) => m.run? (m.beatEvents (shotAt now) beat)) m

def pollUntil [Draws γ] (files : Files) (goal : Nat) : Nat → Monitor γ → Option (Monitor γ)
  | 0, m => some m
  | fuel + 1, m =>
    if goal ≤ m.registry.totalCount then some m
    else (m.run? (m.iterationEvents (m.poller.readings files))).bind (pollUntil files goal fuel)

end QuantileMonitor.Monitor
