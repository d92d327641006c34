import QuantileMonitor.Monitor.Start
import QuantileMonitor.Program.LogFilter
import QuantileMonitor.Program.Report
import QuantileMonitor.Settings.Arguments
import QuantileMonitor.Settings.File

/-! What the words of a command line lead to. The words are read first; the version asks for nothing
else. Then come the settings file, the words that override it, the log filter, and the start. -/

namespace QuantileMonitor.Program

open Monitor

inductive Failure
  | load (path : String) (cause : LoadError)
  | logFilter (text : String) (cause : DirectiveError)
  | start (cause : StartError)

def Failure.chain : Failure → List String
  | load path cause => ("loading config from " ++ path) :: cause.chain
  | logFilter text cause => ("invalid log level: " ++ text) :: cause.chain
  | start cause => cause.chain

def settingsOf (files : Files) (a : Arguments) : Except Failure Settings := do
  let base ←
    match a.config with
    | none => pure {}
    | some path => (Settings.load files path).mapError (.load path)
  let s := base.apply a.overrides
  let s := { s with logLevel := a.logLevel.getD s.logLevel }
  (checkLogFilter s.logLevel).mapError (.logFilter s.logLevel)
  return s

inductive Outcome (γ : Type)
  | usage (cause : UsageError)
  | version
  | failure (cause : Failure)
  | monitor (s : Settings) (m : Monitor γ)

def begin {γ : Type} (files : Files) (words : List String) (draws : EntityKey → γ × γ) (now : Instant) :
    Outcome γ :=
  match Arguments.read words with
  | .error cause => .usage cause
  | .ok a =>
    if a.version then .version
    else
      match settingsOf files a with
      | .error cause => .failure cause
      | .ok s =>
        match Monitor.start s files draws now with
        | .error cause => .failure (.start cause)
        | .ok m => .monitor s m

def Outcome.exitCode {γ : Type} : Outcome γ → Nat
  | usage .helpWanted | version | monitor _ _ => 0
  | usage _ => 2
  | failure _ => 1

def helpText : String :=
  let options := CommandOption.table.map fun o =>
    "  " ++ o.usage ++ (if o.takesValue then " <VALUE>" else "")
  String.join ((["Usage: latscope [OPTIONS] [COMMAND]", "", "Commands:", "  version", "  help", "", "Options:"] ++
    options).map (· ++ "\n"))

def versionLine : String := "latscope 0.1.0 (commit: unknown, linux/x86_64)\n"

end QuantileMonitor.Program
