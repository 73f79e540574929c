import Isthmus.Command.Demo
import Isthmus.Descriptor.Listing
import Isthmus.Document.Pretty

/-!
# Command/Run — what the program says

`run` answers a command line: the lines on standard output, an error, and the exit code.
-/

namespace Isthmus.Command

open Config

/-- The name of the program with its version. -/
def versionLine : String :=
  "ferry 0.2.0"

/-- How the program is used. -/
def usage : List String :=
  ["Usage: ferry [-c FILE] [-t COUNT] [-v] COMMAND",
    "",
    "Commands:",
    "  info                     version, platform and settings",
    "  describe [TYPE] [--json] what the library types declare",
    "  demo [SCENARIO]          calculator, imaging, events or all"]

/-- What the program knows of its surroundings. -/
structure Surroundings where
  files : Files := {}
  /-- The number of processors, as it is told. -/
  processors : String
  /-- The time that background work takes, as it is told. -/
  elapsed : String

/-- How the program ends. -/
structure Outcome where
  code : Nat := 0
  /-- The lines on standard output. -/
  lines : List String := []
  error : Option String := none
  deriving DecidableEq, Repr

/-- Ends with a failure. -/
def Outcome.failure (text : String) : Outcome :=
  { code := 1, error := some ("Error: " ++ text) }

/-- The descriptors of the library classes, in the order in which they are exported. -/
def descriptors : List TypeDescriptor :=
  ClassKey.library.map ({} : Plans).descriptor

/-- Version, platform and settings. -/
def info (s : Surroundings) (config : Option String) (settings : Settings) : List String :=
  let workers := settings.workers
  ["Ferry v0.2.0",
    "",
    "Platform:     linux (x86_64)",
    "CPUs:         " ++ s.processors,
    "Config:       " ++ config.getD "(defaults)",
    "",
    "Conversion:",
    "  max buffer:     " ++ toString settings.conversion.maxBufferLength ++ " bytes",
    "  dynamic types:  " ++ ", ".intercalate settings.conversion.dynamicTypes,
    "Workers:",
    "  threads:        " ++
      (if workers.threads = 0 then s.processors else toString workers.threads),
    "  shutdown wait:  " ++ toString workers.shutdownMillis ++ " ms",
    "",
    "Types:        " ++ ", ".intercalate (descriptors.map (·.name))]

/-- The descriptors, or the one of a name. -/
def describe (type : Option String) (json : Bool) : Outcome :=
  let selected := descriptors.filter fun d => type.all (d.name = ·)
  match type, selected with
  | some name, [] => .failure ("unknown type: " ++ name)
  | _, _ =>
    let text :=
      if json then (Document.list (selected.map (·.document ClassKey.typeName))).pretty
      else "\n".intercalate (selected.map (·.listing ClassKey.typeName))
    { lines := text.splitOn "\n" }

/-- The settings in a file, or the default ones, with the thread count of the command line. -/
def settingsFor (files : Files) (r : Request) : Except ConfigError Settings := do
  let settings ← match r.config with
    | some path => Settings.load (files.readText path)
    | none => .ok {}
  match r.threads with
  | some n => return { settings with workers.threads := n }
  | none => return settings

/-- Does what a command line asks for. -/
def perform (s : Surroundings) (r : Request) : Outcome :=
  match settingsFor s.files r with
  | .error e => .failure ("Config error: " ++ e.message)
  | .ok settings =>
    match r.task with
    | .info => { lines := info s r.config settings }
    | .describe type json => describe type json
    | .demo scenario =>
      match demonstrate s.files s.elapsed settings scenario with
      | .ok lines => { lines }
      | .error text => .failure text

/-- Answers a command line. -/
def run (s : Surroundings) (args : List String) : Outcome :=
  match parse args with
  | .ok r => perform s r
  | .error .version => { lines := [versionLine] }
  | .error .help => { lines := usage }
  | .error .misuse => { code := 2 }

end Isthmus.Command
