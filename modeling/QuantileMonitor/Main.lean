import Std.Async.Signal
import Std.Time.Zoned
import QuantileMonitor.Draws.Generator
import QuantileMonitor.Monitor.Timetable
import QuantileMonitor.Program.Command

/-! The program. It copies the files that a run can need from the disk and runs a monitor on the clock
until it is told to stop. -/

open QuantileMonitor QuantileMonitor.Monitor QuantileMonitor.Program

namespace QuantileMonitor.Program

def copyFile (files : Files) (path : String) : IO Files := do
  try return files.write (Files.placeOf path) (← IO.FS.readBinFile path)
  catch _ => return files

def namesIn (path : String) : IO (List String) := do
  let here ← IO.currentDir
  try return (← (here / path).readDir).toList.map (·.fileName)
  catch _ => return []

def copyEach (files : Files) (path : String) (wanted : List String) : IO Files := do
  let mut files := files
  let names ← namesIn path
  unless names.isEmpty do files := files.makeDirectories [] (Files.placeOf path)
  for name in names do
    for file in wanted do
      files ← copyFile files (joinPath (joinPath path name) file)
  return files

def copyTree (files : Files) (root : String) : IO Files := do
  let files ← copyEach files (joinPath root "block") ["uevent", "inflight"]
  copyEach files (joinPath root "dev/block") ["uevent"]

def neededFiles (words : List String) : IO Files := do
  match Arguments.read words with
  | .error _ => return .empty
  | .ok a =>
    let files ← match a.config with
      | none => pure Files.empty
      | some path => copyFile .empty path
    match settingsOf files a with
    | .error _ => return files
    | .ok s => copyTree files s.sysRoot

def look (files : Files) (origin : Nat) : IO Shot := do
  let time ← Std.Time.PlainTime.now
  return {
    now := (← IO.monoNanosNow) - origin
    files
    clock := Frame.timeOfDay time.hour.val.toNat time.minute.val.toNat time.second.val.toNat
    ending := .written }

def write (m : Monitor Draws.Generator) (shot : Shot) (event : Shot → Event) :
    IO (Monitor Draws.Generator) := do
  let drawn := (m.step? (event shot)).getD m
  let out ← IO.getStdout
  try
    out.putStr (drawn.output.latest.getD "")
    out.flush
    return drawn
  catch _ => return (m.step? (event { shot with ending := .failed })).getD m

def nap : Nat := 20

def watch {α : Type} (s : Settings) (m : Monitor Draws.Generator) (files : Files) (ends : List (Task α)) :
    IO Unit := do
  let table : Timetable := ⟨s.pollPeriod.getD .zero, s.interval, s.frameInterval⟩
  let origin ← IO.monoNanosNow
  let mut m := m
  let mut files := files
  let mut agenda := Agenda.start table
  let mut polling := true
  while !(← ends.anyM fun t => IO.hasFinished t) do
    let now := (← IO.monoNanosNow) - origin
    let (beat, later) := agenda.take table now
    agenda := later
    match beat with
    | none => IO.sleep (min nap ((agenda.earliest - now) / 1000000 + 1)).toUInt32
    | some .draw => m ← write m (← look files origin) .draw
    | some .poll =>
      if polling then
        files ← copyEach files (joinPath m.root "block") ["inflight"]
        match m.run? (m.beatEvents (← look files origin) .poll) with
        | some next => m := next
        | none =>
          -- Polling is over with a failed iteration, and what its batch held is lost.
          polling := false
          m := { m with batch := none }
    | some .reset => m := (m.run? (m.beatEvents (← look files origin) .reset)).getD m
  m := (m.run? [.cancel, .endPolling, .endResets, .endFrames]).getD m
  discard <| write m (← look files origin) .drawLast

def onSignal (signal : Std.Async.Signal) : IO (Std.Async.AsyncTask Int) := do
  (← Std.Async.Signal.Waiter.mk signal false).wait

end QuantileMonitor.Program

def main (words : List String) : IO UInt32 := do
  let files ← neededFiles words
  let seed (key : EntityKey) : Draws.Generator × Draws.Generator := Draws.Generator.forRank key.rank
  let outcome := begin files words seed 0
  match outcome with
  | .usage .helpWanted => IO.print helpText
  | .usage cause => IO.eprintln ("error: " ++ cause.message)
  | .version => IO.print versionLine
  | .failure cause => IO.eprint (report cause.chain)
  | .monitor s m =>
    watch s m files [← onSignal .sigterm, ← onSignal .sigint]
  return outcome.exitCode.toUInt32
