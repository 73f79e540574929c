import Isthmus.Bridge.Handle

/-!
# Engine/Native — building native values

Buffers, instances and deferreds are things of the world: building a value adds them.
-/

namespace Isthmus.Engine

/-- Adds a buffer; `label` is reported when it goes. -/
def createBuffer (bytes : Array UInt8) (label : Option String) : Engine Buffer := do
  let w ← get
  set { w with storages := w.storages.insert label }
  return ⟨w.storages.next, bytes⟩

/-- Adds a pending deferred. -/
def createDeferred : Engine DeferredId := do
  let w ← get
  set w.newDeferred
  return ⟨w.deferreds.next⟩

/-- Adds an event source. -/
def createSource : Engine SourceId := do
  let w ← get
  set { w with sources := w.sources.insert {} }
  return ⟨w.sources.next⟩

/-- Submits background work. -/
def spawn (job : Job) : Engine Unit :=
  modify fun w => { w with jobs := w.jobs ++ [job] }

/-- Adds a matrix, and gives it as a value. -/
def matrixValue (m : Matrix) : Engine NativeValue := do
  return .object ClassKey.matrix.typeId (← createInstanceOf (.matrix m))

mutual

/-- Builds a value; `none` if the recipe names what is not there. -/
def build : Recipe → Engine (Option NativeValue)
  | .void => return some .void
  | .bool b => return some (.bool b)
  | .int i => return some (.int i)
  | .double d => return some (.double d)
  | .string s => return some (.string s)
  | .buffer bytes => return some (.buffer (← createBuffer bytes none))
  | .list items => return (← buildAll items).map .list
  | .variant content => return (← build content).map NativeValue.toVariant
  | .stranger type => return some (.object type (← createInstanceOf .stranger))
  | .matrix rows cols channels samples => do
    let b ← createBuffer samples none
    match Matrix.ofSamples b.storage rows cols channels samples with
    | .ok m => return some (← matrixValue m)
    | .error _ => return none
  | .deferred name => return ((← get).roots.deferreds.find? name).map .deferred
  | .named name => return (← get).roots.natives.find? name

/-- Builds several values. -/
def buildAll : List Recipe → Engine (Option (List NativeValue))
  | [] => return some []
  | r :: rest => do
    let v ← build r
    let vs ← buildAll rest
    return do return (← v) :: (← vs)

end

/-- Adds the instance that a class makes by default. -/
def createDefault : ClassKey → Engine InstanceId
  | .calculator => createInstanceOf (.calculator {})
  | .matrix => do
    let b ← createBuffer #[] none
    createInstanceOf (.matrix (Matrix.empty b.storage))
  | .imaging => createInstanceOf .imaging
  | .ticker => do createInstanceOf (.ticker 0 (← createSource))
  | .puppet i => do
    let plan := (← get).plans.plan i
    let slots ← plan.slots.mapM fun slot =>
      match slot.initial with
      | some recipe => build recipe
      | none => return none
    createInstanceOf (.puppet i slots (← createSource))
  | .plain => createInstanceOf .plain

/-- The event source of an instance. -/
def sourceOf (id : InstanceId) : Engine (Option SourceId) := do
  let w ← get
  match w.instance? id with
  | some (.ticker _ source) => return some source
  | some (.puppet i _ source) => return if (w.plans.plan i).hasSource then some source else none
  | _ => return none

end Isthmus.Engine
