import Isthmus.Session.Eval

/-!
# Session/Contexts — setting contexts up and taking them down

A context starts with a global object that carries a console.  A host context has the bridge with all
library classes, which its global object exports.
-/

namespace Isthmus.Session

open Engine Script

/-- The name under which a host exports the library classes. -/
def exportsName : String :=
  "ferry"

/-- Adds a context with its loop and its console. -/
def createContext : Engine ContextId := do
  let w ← get
  let cx : ContextId := ⟨w.contexts.next⟩
  let global ← allocate { context := cx }
  modify (·.openContext global)
  let console ← allocate { context := cx }
  let error ← allocate { context := cx, kind := .function "error" .consoleError 0 }
  putOwn console "error" (.data (.object error) true false)
  putOwn global "console" (.data (.object console) true false)
  return cx

/-- Adds a host: a context with the bridge, and the library classes exported. -/
def createHost (registry : Registry) : Engine ContextId := do
  let cx ← createContext
  install cx registry
  let exported ← allocate { context := cx }
  modifyContext cx ({ · with exported := some exported })
  exportClasses cx exported
  let global := (← context cx).global
  defineAll cx global
    [{ name := exportsName, member := .value (.object exported), readOnly := true }]
  return cx

/-- Reports that there are no settings. -/
def failConfig {α : Type} (e : Config.ConfigError) : Engine α :=
  fail e.kind (if e = .malformed then "" else e.message)

/-- Reports that there is no host. -/
def failHost {α : Type} (e : Config.ConfigError) : Engine α :=
  fail "RuntimeError" ("Config error: " ++ e.message)

/-- Adds a context that is set up as asked. -/
def setUp (setup : Setup) : Engine ContextId := do
  let plans := (← get).plans
  match setup with
  | .bare => createContext
  | .bridge spec =>
    match Registry.ofSpec plans spec with
    | .error e => failConfig e
    | .ok registry =>
      let cx ← createContext
      install cx registry
      return cx
  | .host config =>
    let settings ← match config with
      | none => pure {}
      | some text =>
        match Config.Settings.parse text with
        | .ok settings => pure settings
        | .error e => failConfig e
    match Registry.ofSettings ClassKey.types.lookup plans settings.conversion with
    | .error e => failHost e
    | .ok registry => createHost registry

/-- Drops a context: first the bridge, then the global object and what is queued. -/
def dropContext (cx : ContextId) : Engine Unit := do
  let c ← context cx
  modify (·.unbind cx none)
  if let some (.bridge id) := c.data then letGo [.installation id]
  operate fun w =>
    let (w, more) := w.closeContext cx
    (w, .letGo (.object c.global) :: more)
  letGo (refsOf (fun o => [.object o]) c.exported)

/-! ## Hosts -/

/-- The object with the exported classes of a host. -/
def exportsOf (cx : ContextId) : Engine ObjectId := do
  match (← context cx).exported with
  | some id => return id
  | none => fail "bad_input" "expected a host"

/-- The exported class of a name. -/
def exportedClass (run : Runner) (cx : ContextId) (name : String) : Engine ForeignValue := do
  getProperty run cx (← exportsOf cx) name

/-- Constructs an instance of an exported class. -/
def constructExported (run : Runner) (cx : ContextId) (name : String) (args : List ForeignValue) :
    Engine ObjectId := do
  let cls ← exportedClass run cx name
  if cls matches .undefined then raiseTypeError cx (name ++ " is not an exported class")
  match ← construct run cx cls args with
  | .object id => return id
  | other => raiseTypeError cx (name ++ " constructed a non-object: " ++ (← describe other))

/-! ## Choosing a context -/

/-- Makes a context the one that the following steps work in. -/
def useContext (cx : ContextId) : Engine Unit :=
  modify fun w => { w with current := cx }

end Isthmus.Session
