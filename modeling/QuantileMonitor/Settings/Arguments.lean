import QuantileMonitor.Decimal.Read
import QuantileMonitor.Settings.Overrides
import QuantileMonitor.Text.Duration

/-! The words of a command line. An option's value is attached to it, after an equals sign or directly
after its letter, or it is the next word, which then begins with no dash. An attached value is read at
once; a next word is read when the next option comes, or at the end. -/

namespace QuantileMonitor

inductive UsageError
  | unknownOption (word : String)
  | unknownCommand (word : String)
  | unexpectedValue (option value : String)
  | missingValue (option : String)
  | notAChoice (option value : String)
  | badValue (option value : String)
  | repeated (option : String)
  | helpWanted

def UsageError.message : UsageError → String
  | unknownOption word => "unexpected argument " ++ word
  | unknownCommand word => "unrecognized subcommand " ++ word
  | unexpectedValue option value => "unexpected value " ++ value ++ " for --" ++ option
  | missingValue option => "a value is required for --" ++ option
  | notAChoice option value => "invalid value " ++ value ++ " for --" ++ option
  | badValue option value => "invalid value " ++ value ++ " for --" ++ option
  | repeated option => "--" ++ option ++ " cannot be used multiple times"
  | helpWanted => "help"

structure Arguments where
  config : Option String := none
  logLevel : Option String := none
  overrides : Overrides := {}
  version : Bool := false

inductive ValueFault
  | missing
  | choice
  | form

inductive Effect
  | switch (turnOn : Arguments → Arguments)
  | value (put : Arguments → String → Except ValueFault Arguments)
  | values (put : Arguments → String → Arguments)
  | help

structure CommandOption where
  name : String
  letter : Option Char
  effect : Effect

namespace CommandOption

open Text

def ofRead {α : Type} (name : String) (letter : Option Char) (fault : ValueFault)
    (read : String → Option α) (put : Overrides → α → Overrides) : CommandOption where
  name := name
  letter := letter
  effect := .value fun a text =>
    match read text with
    | none => .error fault
    | some v => .ok { a with overrides := put a.overrides v }

def span? (text : String) : Option Span := duration? text.toList

def count? (text : String) : Option Nat := unsigned? Word.bound text.toList

def addSyscalls (a : Arguments) (text : String) : Arguments :=
  let items := (splitOn ',' text.toList).map String.ofList
  { a with overrides := { a.overrides with syscalls := some (a.overrides.syscalls.getD [] ++ items) } }

def table : List CommandOption :=
  [⟨"config", none, .value fun a path =>
      if path = "" then .error .missing else .ok { a with config := some path }⟩,
    ⟨"log-level", none, .value fun a logLevel => .ok { a with logLevel := some logLevel }⟩,
    .ofRead "mode" none .choice Mode.ofName? fun o v => { o with mode := some v },
    .ofRead "devices" (some 'd') .form some fun o v => { o with devices := some v },
    .ofRead "interval" (some 'i') .form span? fun o v => { o with interval := some v },
    ⟨"batch", none, .switch fun a => { a with overrides := { a.overrides with batch := true } }⟩,
    .ofRead "strategy" none .choice Method.ofName? fun o v => { o with method := some v },
    .ofRead "alpha" none .form (fun t => Decimal.read? t.toList) fun o v => { o with accuracy := some v },
    .ofRead "reservoir-size" none .form count? fun o v => { o with reservoirSize := some v },
    .ofRead "histogram-max" none .form count? fun o v => { o with histogramMax := some v },
    .ofRead "poll-interval" none .form span? fun o v => { o with pollPeriod := some v },
    .ofRead "flush-every" none .form count? fun o v => { o with flushEvery := some v },
    .ofRead "frame-interval" none .form span? fun o v => { o with framePeriod := some v },
    ⟨"syscalls", some 's', .values addSyscalls⟩,
    .ofRead "process-name" (some 'c') .form some fun o v => { o with processName := some v },
    ⟨"top", none, .switch fun a => { a with overrides := { a.overrides with showTop := true } }⟩,
    ⟨"help", some 'h', .help⟩]

def ofName? (name : String) : Option CommandOption := table.find? (·.name = name)

def ofLetter? (letter : Char) : Option CommandOption := table.find? (·.letter = some letter)

def usage (o : CommandOption) : String :=
  (o.letter.elim "    " fun c => String.ofList ['-', c, ',', ' ']) ++ "--" ++ o.name

def takesValue (o : CommandOption) : Bool :=
  match o.effect with
  | .value _ | .values _ => true
  | .switch _ | .help => false

end CommandOption

namespace Arguments

structure Progress where
  arguments : Arguments := {}
  given : List String := []
  pending : Option (CommandOption × Option String) := none

namespace Progress

def onlyOnce (p : Progress) (o : CommandOption) : Except UsageError Progress :=
  if p.given.contains o.name then .error (.repeated o.name)
  else .ok { p with given := o.name :: p.given }

def give (p : Progress) (o : CommandOption) (value : String) : Except UsageError Progress := do
  match o.effect with
  | .help => throw .helpWanted
  | .values put => return { p with arguments := put p.arguments value }
  | .switch turnOn =>
    let p ← p.onlyOnce o
    return { p with arguments := turnOn p.arguments }
  | .value put =>
    let p ← p.onlyOnce o
    match put p.arguments value with
    | .ok a => return { p with arguments := a }
    | .error .missing => throw (.missingValue o.name)
    | .error .choice => throw (.notAChoice o.name value)
    | .error .form => throw (.badValue o.name value)

def resolve (p : Progress) : Except UsageError Progress :=
  match p.pending with
  | none => .ok p
  | some (o, none) => .error (.missingValue o.name)
  | some (o, some value) => { p with pending := none }.give o value

def option (p : Progress) (o : CommandOption) (attached : Option String) : Except UsageError Progress := do
  match o.takesValue, attached with
  | true, some value => (← p.resolve).give o value
  | true, none => return { ← p.resolve with pending := some (o, none) }
  | false, some value => throw (.unexpectedValue o.name value)
  | false, none => (← p.resolve).give o ""

def long (p : Progress) (word : List Char) : Except UsageError Progress :=
  let name := String.ofList (word.takeWhile (· ≠ '='))
  let attached :=
    match word.dropWhile (· ≠ '=') with
    | [] => none
    | _ :: value => some (String.ofList value)
  match CommandOption.ofName? name with
  | none => .error (.unknownOption ("--" ++ String.ofList word))
  | some o => p.option o attached

def letters (p : Progress) : List Char → Except UsageError Progress
  | [] => .ok p
  | letter :: rest =>
    match CommandOption.ofLetter? letter with
    | none => .error (.unknownOption (String.ofList ['-', letter]))
    | some o =>
      if o.takesValue then
        match rest with
        | [] => p.option o none
        | '=' :: value => p.option o (some (String.ofList value))
        | value => p.option o (some (String.ofList value))
      else do letters (← p.option o none) rest

def isOpen (p : Progress) : Bool :=
  match p.pending with
  | some (_, none) => true
  | _ => false

end Progress

def noMore : List String → Except UsageError Unit
  | [] => .ok ()
  | "--" :: rest =>
    match rest with
    | [] => .ok ()
    | word :: _ => .error (.unknownOption word)
  | "--help" :: _ => .error .helpWanted
  | word :: _ =>
    if word.startsWith "--help=" then .error (.unexpectedValue "help" (word.drop 7).toString)
    else if word.startsWith "-h" then .error .helpWanted
    else .error (.unknownOption word)

def helpFor : List String → UsageError
  | [] | ["version"] | ["help"] => .helpWanted
  | "version" :: word :: _ | "help" :: word :: _ | word :: _ => .unknownCommand word

def afterDashes (p : Progress) : List String → Except UsageError Arguments
  | [] => return (← p.resolve).arguments
  | word :: _ =>
    if word = "version" || word = "help" then .error (.unknownOption word)
    else .error (.unknownCommand word)

def readFrom (p : Progress) : List String → Except UsageError Arguments
  | [] => return (← p.resolve).arguments
  | word :: rest =>
    if word = "version" && !p.isOpen then do
      noMore rest
      return { (← p.resolve).arguments with version := true }
    else if word = "help" && !p.isOpen then .error (helpFor rest)
    else
      match word.toList with
      | ['-', '-'] => afterDashes p rest
      | '-' :: '-' :: long => do readFrom (← p.long long) rest
      | '-' :: letter :: letters => do readFrom (← p.letters (letter :: letters)) rest
      | _ =>
        match p.pending with
        | some (o, none) => readFrom { p with pending := some (o, some word) } rest
        | _ => .error (.unknownCommand word)

def read (words : List String) : Except UsageError Arguments := readFrom {} words

end Arguments

end QuantileMonitor
