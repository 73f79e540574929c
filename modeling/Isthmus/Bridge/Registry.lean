import Isthmus.Config.Settings
import Isthmus.Script.Syntax

/-!
# Bridge/Registry — how types convert between the two sides

A registry says, for each type and each direction, how its values convert; a later entry for a type
replaces the earlier one.  It also lists the classes that the bridge defines and the property types
that may not be assigned.

A host may register any function as a conversion.  Of such functions there are four samples here, which
scripts can ask for; laws about conversions speak of the built-in ones and those of classes.
-/

namespace Isthmus

/-- A conversion from native to foreign: of a built-in type, of a class, or one of the samples. -/
inductive Encoder where
  | void
  | bool
  | int
  | double
  | string
  | buffer
  | deferred
  | instance (cls : ClassKey)
  /-- A sample: gives the text "nil". -/
  | nil
  /-- A sample: gives the length of a buffer. -/
  | length
  /-- A sample: throws a type error. -/
  | refusal
  deriving DecidableEq, Repr

/-- A conversion from foreign to native: of a built-in type, of a class, or the sample. -/
inductive Decoder where
  | bool
  | int
  | double
  | string
  | buffer
  | instance (cls : ClassKey)
  /-- A sample: takes the text "nil", though its probe lets every text through. -/
  | nil
  deriving DecidableEq, Repr

/-- A class that the bridge defines. -/
structure ClassEntry where
  key : ClassKey
  /-- The foreign name of the class. -/
  name : String
  deriving DecidableEq, Repr

/-- All conversions. -/
structure Registry where
  encoders : List (TypeId × Encoder)
  decoders : List (TypeId × Decoder)
  classes : List ClassEntry := []
  dynamicTypes : List TypeId := [.variant]
  maxBufferLength : Nat := 2147483647
  deriving DecidableEq, Repr

namespace Registry

/-- The built-in conversions with default settings. -/
def base : Registry where
  encoders := [(.void, .void), (.bool, .bool), (.int, .int), (.double, .double),
    (.string, .string), (.buffer, .buffer), (.deferred, .deferred)]
  decoders := [(.bool, .bool), (.int, .int), (.double, .double), (.string, .string),
    (.buffer, .buffer)]

/-- The conversion of a type to the foreign side. -/
def encoder? (r : Registry) (t : TypeId) : Option Encoder :=
  (r.encoders.find? (·.1 = t)).map (·.2)

/-- The conversion of a type to the native side. -/
def decoder? (r : Registry) (t : TypeId) : Option Decoder :=
  (r.decoders.find? (·.1 = t)).map (·.2)

/-- Properties of the type may not be assigned. -/
def isDynamic (r : Registry) (t : TypeId) : Bool :=
  r.dynamicTypes.contains t

def withEncoder (r : Registry) (t : TypeId) (e : Encoder) : Registry :=
  { r with encoders := (t, e) :: r.encoders.filter (·.1 ≠ t) }

def withDecoder (r : Registry) (t : TypeId) (d : Decoder) : Registry :=
  { r with decoders := (t, d) :: r.decoders.filter (·.1 ≠ t) }

/-- Adds a class: the conversions of its instances, and its place at the end of the list. -/
def withClass (plans : Plans) (r : Registry) (key : ClassKey) : Registry :=
  let r := (r.withEncoder key.typeId (.instance key)).withDecoder key.typeId (.instance key)
  { r with
    classes := r.classes.filter (·.key ≠ key) ++ [⟨key, (plans.descriptor key).name⟩] }

/-- Takes the conversion settings over. -/
def withSettings (lookup : String → Option TypeId) (r : Registry)
    (s : Config.ConversionSettings) : Except Config.ConfigError Registry := do
  let dynamic ← s.dynamicIds lookup
  return { r with dynamicTypes := dynamic, maxBufferLength := s.maxBufferLength }

/-- The registry with all classes of the library. -/
def ofSettings (lookup : String → Option TypeId) (plans : Plans) (s : Config.ConversionSettings) :
    Except Config.ConfigError Registry := do
  return ClassKey.library.foldl (withClass plans) (← base.withSettings lookup s)

/-- Takes over what a script asks for besides a configuration. -/
def withSpec (plans : Plans) (spec : Script.RegistrySpec) (r : Registry) : Registry :=
  let r := match spec.maxBufferLength with
    | some n => { r with maxBufferLength := n }
    | none => r
  let r := match spec.dynamic with
    | some types => { r with dynamicTypes := types }
    | none => r
  let r := spec.classes.foldl (withClass plans) r
  let r := if spec.voidAsNil then (r.withEncoder .void .nil).withDecoder .void .nil else r
  let r := if spec.bufferAsLength then r.withEncoder .buffer .length else r
  if spec.stringThrows then r.withEncoder .string .refusal else r

/-- The built-in conversions with the settings of a configuration text, if there is one. -/
def ofConfig : Option String → Except Config.ConfigError Registry
  | some text => do
    base.withSettings ClassKey.types.lookup (← Config.Settings.parse text).conversion
  | none => return base

/-- The registry that a script asks for. -/
def ofSpec (plans : Plans) (spec : Script.RegistrySpec) : Except Config.ConfigError Registry := do
  return withSpec plans spec (← ofConfig spec.config)

end Registry

end Isthmus
