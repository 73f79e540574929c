import Isthmus.Config.Toml
import Isthmus.File
import Isthmus.Type.Table

/-!
# Config/Settings — the settings in a configuration

Every setting has a default, and keys that are no settings are ignored.  A group of settings may be
written as a table or, by position, as an array.
-/

namespace Isthmus.Config

/-- Why there are no settings. -/
inductive ConfigError where
  | unreadable (cause : ReadError)
  | malformed
  | unknownType (name : String)
  deriving DecidableEq, Repr

namespace ConfigError

/-- The name of the kind of failure. -/
def kind : ConfigError → String
  | unreadable _ => "IoError"
  | malformed => "ParseError"
  | unknownType _ => "UnknownType"

/-- The text shown for a failure. -/
def message : ConfigError → String
  | unreadable cause => "Failed to read config file: " ++ cause.message
  | malformed => "Failed to parse config"
  | unknownType name => "Unknown type name in config: " ++ name

end ConfigError

/-- How values are converted. -/
structure ConversionSettings where
  /-- Buffers this large or larger are converted to nothing. -/
  maxBufferLength : Nat := 2147483647
  /-- The names of the property types that may not be assigned. -/
  dynamicTypes : List String := ["variant"]
  deriving DecidableEq, Repr

/-- How background work runs. -/
structure WorkerSettings where
  /-- The number of workers; zero stands for one a processor. -/
  threads : Nat := 0
  /-- How long a shutdown waits for each worker. -/
  shutdownMillis : Nat := 2000
  deriving DecidableEq, Repr

/-- All settings. -/
structure Settings where
  conversion : ConversionSettings := {}
  workers : WorkerSettings := {}
  deriving DecidableEq, Repr

/-- A size. -/
def Node.size? : Node → Option Nat
  | .integer n => if 0 ≤ n then some n.toNat else none
  | _ => none

/-- A text. -/
def Node.text? : Node → Option String
  | .string s => some s
  | _ => none

/-- A list of texts. -/
def Node.texts? : Node → Option (List String)
  | .array items => items.mapM Node.text?
  | _ => none

/-- The values of a group with the given keys, each if it is there; `none` for what is no group. -/
def Node.group? (keys : List String) : Node → Option (List (Option Node))
  | .table _ entries => some (keys.map (Entries.find? entries ·))
  | .array items => some ((List.range keys.length).map (items[·]?))
  | .tables newest older =>
    let items := (Node.table .headed newest :: older).reverse
    some ((List.range keys.length).map (items[·]?))
  | .moment => some (keys.map fun _ => none)
  | _ => none

/-- The value of a setting, or its default where it is not given. -/
def setting {α : Type} (read : Node → Option α) (default : α) : Option (Option Node) → Option α
  | some (some v) => read v
  | _ => some default

namespace ConversionSettings

/-- The conversion settings in a value. -/
def ofNode? (v : Node) : Option ConversionSettings := do
  let parts ← v.group? ["max_external_buffer_len", "dynamic_types"]
  let default : ConversionSettings := {}
  return {
    maxBufferLength := ← setting Node.size? default.maxBufferLength parts[0]?
    dynamicTypes := ← setting Node.texts? default.dynamicTypes parts[1]? }

/-- The ids of the dynamic types. -/
def dynamicIds (lookup : String → Option TypeId) (s : ConversionSettings) :
    Except ConfigError (List TypeId) :=
  s.dynamicTypes.mapM fun name =>
    match lookup name with
    | some id => .ok id
    | none => .error (.unknownType name)

end ConversionSettings

/-- The worker settings in a value. -/
def WorkerSettings.ofNode? (v : Node) : Option WorkerSettings := do
  let parts ← v.group? ["threads", "shutdown_timeout_ms"]
  let default : WorkerSettings := {}
  return {
    threads := ← setting Node.size? default.threads parts[0]?
    shutdownMillis := ← setting Node.size? default.shutdownMillis parts[1]? }

namespace Settings

/-- The settings in a text. -/
def parse (text : String) : Except ConfigError Settings :=
  match (do
    let entries ← Toml.read text
    return {
      conversion := ← setting ConversionSettings.ofNode? {} (some (Entries.find? entries "bridge"))
      workers := ← setting WorkerSettings.ofNode? {} (some (Entries.find? entries "workers")) }) with
  | some s => .ok s
  | none => .error .malformed

/-- The settings in a file, given what reading the file gave. -/
def load : Except ReadError String → Except ConfigError Settings
  | .ok text => parse text
  | .error e => .error (.unreadable e)

end Settings

end Isthmus.Config
