import Isthmus.Bridge.Member
import Isthmus.Session.Eval

/-!
# Session/Natives — actions on native instances, handles, events and deferreds
-/

namespace Isthmus.Session

open Engine Script

variable (run : Runner)

/-! ## Conversion -/

/-- Converts a native value by the registry of a context. -/
def convertToForeign (cx : ContextId) (v : NativeValue) : Engine ForeignValue := do
  match ← toForeign run cx (← registry cx) v with
  | .ok foreign => return foreign
  | .error e => fail e.kind e.message

/-- Converts a foreign value by the registry of a context. -/
def convertFromForeign (cx : ContextId) (v : ForeignValue) (type : TypeId) :
    Engine NativeValue := do
  match ← fromForeign cx (← registry cx) v type with
  | .ok native => return native
  | .error e => fail e.kind e.message

/-- The registry of a context, and which of some types are dynamic. -/
def registryState (cx : ContextId) (types : List TypeId) : Engine Document := do
  let r ← registry cx
  return .record [("max_buffer_len", .nat r.maxBufferLength),
    ("classes", .list (r.classes.map fun entry =>
      .texts [entry.name, ClassKey.typeName entry.key.typeId])),
    ("dynamic", .list (types.map fun t => .bool (r.isDynamic t)))]

/-! ## Instances -/

/-- The instance of a class that a value holds. -/
def instanceOf (cls : ClassKey) (v : NativeValue) : Engine InstanceId := do
  let w ← get
  match v.unwrap.asObject? with
  | some id =>
    if ((w.instance? id).bind (·.class?)) = some cls then return id
    else fail "bad_input" "expected an instance"
  | none => fail "bad_input" "expected an instance"

/-- Names a new instance of a class: the default one, or a given matrix. -/
def newNative (name : String) (cls : ClassKey) (matrix : Option Recipe) : Engine Unit := do
  let v ← match matrix with
    | some r => buildValue r
    | none => pure (.object cls.typeId (← createDefault cls))
  assignNative name v

/-- Gives a result, or reports the failure of native code. -/
def ofOutcome {α : Type} : Except NativeError α → Engine α
  | .ok a => return a
  | .error e => fail e.kind e.message

/-- Shows a native value once the background work that it may wait for is done. -/
def showFinished (v : NativeValue) : Engine Document := do
  hold v.refs
  finishJobs
  return (← get).showNative v

/-- Calls an instance, or its class, directly. -/
def callNative (id : InstanceId) (cls : ClassKey) : NativeCall → Engine Document
  | .invoke index args => do
    let args ← buildValues args
    showFinished (← ofOutcome (← invoke id index args))
  | .invokeStatic index args => do
    let args ← buildValues args
    showFinished (← ofOutcome (← invokeStatic cls index args))
  | .read index => do
    match ← readMember id index with
    | some v => showFinished v
    | none => return .null
  | .write index recipe => do
    let v ← buildValue recipe
    return .bool (← writeMember id index v)

/-! ## Handles -/

/-- A handle as a document. -/
def handleState (w : World) (h : Handle) : Document :=
  let events : Document := match h.channels.bind w.channels? with
    | some c => .texts c.signatures
    | none => .null
  .record [("type", .text (ClassKey.typeName h.cls.typeId)), ("ownership", .text h.ownership.name),
    ("state", .text h.state.name), ("events", events)]

/-- A named handle as a document. -/
def showHandle (id : HandleId) : Engine Document := do
  let w ← get
  return .ofOption ((w.handle? id).map (handleState w))

/-- Names a handle. -/
def assignHandle (name : String) (id : HandleId) : Engine Unit := do
  let old := (← get).roots.handles.find? name
  modifyRoots fun r => { r with handles := r.handles.put name id }
  letGo (refsOf (fun h => [.handle h]) old)

/-- Names a new handle. -/
def newHandle (name : String) (cls : ClassKey) (source : HandleSource) : Engine Document := do
  let id ← match source with
    | .fresh => do createHandle cls (← createDefault cls) .exclusive
    | .shared inst => do
      let v ← named (·.natives.find? inst)
      createHandle cls (← instanceOf cls v) .shared
    | .adopted inst stay => do
      let v ← named (·.natives.find? inst)
      let i ← instanceOf cls v
      if !stay then modifyRoots fun r => { r with natives := r.natives.remove inst }
      createHandle cls i .exclusive
  assignHandle name id
  showHandle id

/-- Binds a named handle to an object; the name is given up. -/
def bindNamed (cx : ContextId) (name : String) (obj : ObjectId) : Engine Document := do
  let id ← named (·.handles.find? name)
  modifyRoots fun r => { r with handles := r.handles.remove name }
  bindHandle cx id obj
  showHandle id

/-- Names a handle and its instance in order to watch them. -/
def watch (name : String) (id : HandleId) (h : Handle) : Engine Unit :=
  modifyRoots fun r => { r with watches := r.watches.put name (id, h.inst) }

/-- The state of a watched handle, and whether its instance lives. -/
def watchState (name : String) : Engine Document := do
  let (h, inst) ← named (·.watches.find? name)
  let w ← get
  let state := ((w.handle? h).map (·.state)).getD .released
  return .list [.text state.name, .bool (w.contains (.inst inst))]

/-! ## Events -/

/-- Names an event source. -/
def assignSource (name : String) (id : SourceId) : Engine Unit := do
  let old := (← get).roots.sources.find? name
  modifyRoots fun r => { r with sources := r.sources.put name id }
  letGo (refsOf (fun s => [.source s]) old)

/-- Names the event source of an instance; answers whether it has one. -/
def nameSource (inst : String) (cls : ClassKey) (name : String) : Engine Bool := do
  let v ← named (·.natives.find? inst)
  match ← sourceOf (← instanceOf cls v) with
  | some id =>
    assignSource name id
    return true
  | none => return false

/-- Connects the channels of a class to a source, and names them. -/
def connectNamed (cx : ContextId) (name source : String) (cls : ClassKey) : Engine Document := do
  let s ← named (·.sources.find? source)
  let d := (← get).plans.descriptor cls
  let id ← connect cx d s
  let old := (← get).roots.channels.find? name
  modifyRoots fun r => { r with channels := r.channels.put name id }
  letGo (refsOf (fun c => [.channels c]) old)
  return .texts (d.channels ClassKey.typeName)

/-- The channels under a name. -/
def namedChannels (name : String) : Engine (ChannelsId × Channels) := do
  let id ← named (·.channels.find? name)
  match (← get).channels? id with
  | some c => return (id, c)
  | none => fail "bad_input" "unknown name"

/-! ## Deferreds -/

/-- Names a deferred. -/
def assignDeferred (name : String) (id : DeferredId) : Engine Unit := do
  let old := (← get).roots.deferreds.find? name
  modifyRoots fun r => { r with deferreds := r.deferreds.put name id }
  letGo (refsOf (fun d => [.deferred d]) old)

/-! ## Buffers -/

/-- Names a buffer. -/
def assignBuffer (name : String) (b : Buffer) : Engine Unit := do
  let old := (← get).roots.buffers.find? name
  modifyRoots fun r => { r with buffers := r.buffers.put name b }
  letGo (refsOf (fun b => [.storage b.storage]) old)

/-- A named buffer as a document, with the number of its live handles. -/
def bufferInfo (name : String) : Engine Document := do
  let b ← named (·.buffers.find? name)
  let w ← get
  return .record [("len", .nat b.bytes.size), ("empty", .bool b.bytes.isEmpty),
    ("bytes", .text (Text.hexBytes b.bytes)), ("handles", .nat (w.count (.storage b.storage))),
    ("debug", .text b.debug)]

end Isthmus.Session
