import Isthmus.Bridge.Registry

/-!
# Bridge/Program — the registries of a program

A program registers the library classes when it first builds a registry, and shares one registry among
all who use the default conversion settings.
-/

namespace Isthmus

open Config

/-- What a program has registered and built so far. -/
structure Program where
  types : TypeTable ClassKey := {}
  /-- The registry for the default settings. -/
  shared : Option Registry := none

namespace Program

/-- A program that has registered all classes. -/
def ready : Program :=
  { types := ClassKey.types }

/-- Registers the library classes. -/
def registerLibrary (p : Program) : Program :=
  { p with
    types := ClassKey.library.foldl (fun table key => (table.register key key.name).2) p.types }

/-- Builds a registry for conversion settings. -/
def build (p : Program) (s : ConversionSettings) : Except ConfigError (Registry × Program) := do
  let r ← Registry.ofSettings p.types.lookup {} s
  return (r, p.registerLibrary)

/-- The registry for the default settings, built when it is first asked for. -/
def defaultRegistry (p : Program) : Except ConfigError (Registry × Program) :=
  match p.shared with
  | some r => .ok (r, p)
  | none => do
    let (r, p) ← p.build {}
    return (r, { p with shared := some r })

/-- The settings have the registry that is shared. -/
def isShared (s : ConversionSettings) : Bool :=
  s = {}

/-- The registry for conversion settings. -/
def registryFor (p : Program) (s : ConversionSettings) : Except ConfigError (Registry × Program) :=
  if isShared s then p.defaultRegistry else p.build s

end Program

end Isthmus
