import Isthmus.Session.Contexts
import Isthmus.Session.Natives
import Isthmus.Session.Objects

/-!
# Session/Perform — what each action does

`perform` carries out one action and gives its answer.  An answer that is a foreign value can be kept in
a variable after it was shown.
-/

namespace Isthmus.Session

open Engine Script

/-- What an action answers. -/
inductive Answer where
  | document (d : Document)
  | value (v : ForeignValue)

namespace Answer

/-- The answer of an action that has nothing to say. -/
def done : Answer := document .null

def bool (b : Bool) : Answer := document (.bool b)

def nat (n : Nat) : Answer := document (.nat n)

/-- An object as an answer. -/
def object (id : ObjectId) : Answer := value (.object id)

end Answer

variable (run : Runner)

/-- Gives up a name, and lets go of what it stood for. -/
def giveUp {α : Type} (find : Roots → Option α) (remove : Roots → Roots) (refs : α → List Ref) :
    Engine Answer := do
  let old ← named find
  modifyRoots remove
  letGo (refs old)
  return .done

/-- Carries out an action on contexts. -/
def performContext (cx : ContextId) : ContextAction → Engine Answer
  | .create name setup => do
    let id ← setUp setup
    modifyRoots fun r => { r with contexts := r.contexts.put name id }
    useContext id
    return .done
  | .use name => do
    useContext (← named (·.contexts.find? name))
    return .done
  | .drop name => do
    let id ← named (·.contexts.find? name)
    modifyRoots fun r => { r with contexts := r.contexts.remove name }
    dropContext id
    return .done
  | .install spec => do
    match Registry.ofSpec (← get).plans spec with
    | .ok registry =>
      install cx registry
      return .done
    | .error e => failConfig e
  | .isInstalled => do return .bool ((← get).bridge? cx).isSome
  | .scopes count => do return .document (.list ((← scopeDepths cx count).map .nat))
  | .diagnostics => do return .document (← takeDiagnostics cx)
  | .report text => do
    report cx text
    return .done
  | .instanceData text => do return .document (← instanceData cx text)

/-- Carries out an action on values and objects. -/
def performObject (frame : Frame) : ObjectAction → Engine Answer
  | .eval v => do return .value (← eval run frame v)
  | .drop name =>
    giveUp (·.values.find? name) (fun r => { r with values := r.values.remove name })
      ForeignValue.refs
  | .note args => do
    let values ← evalAll run frame args
    let w ← get
    note (.record [("note", .list (values.map (w.showForeign cx)))])
    return .done
  | .get obj name => do
    return .value (← getProperty run cx (← evalObject run frame obj) name)
  | .getValue v name => do return .value (← getValue run cx (← eval run frame v) name)
  | .set obj name v => do
    let id ← evalObject run frame obj
    setProperty run cx id name (← eval run frame v)
    return .done
  | .call fn receiver args => do
    let f ← eval run frame fn
    let this ← evalOr run frame .undefined receiver
    return .value (← call run cx f this (← evalAll run frame args))
  | .callMethod obj name args => do
    let id ← evalObject run frame obj
    return .value (← callMethod run cx id name (← evalAll run frame args))
  | .construct cls args => do
    let c ← eval run frame cls
    return .value (← construct run cx c (← evalAll run frame args))
  | .createInstance cls => do
    return .object (← createInstance run cx (← evalObject run frame cls))
  | .createWithPrototype proto => do
    let proto ← proto.mapM (evalObject run frame)
    return .object (← createWithPrototype cx proto)
  | .keys obj => do
    let o ← object (← evalObject run frame obj)
    return .document (.texts o.keys)
  | .hasOwn obj name => do
    let o ← object (← evalObject run frame obj)
    return .bool (o.hasOwn name)
  | .prototypeOf obj => do
    let o ← object (← evalObject run frame obj)
    match o.prototype with
    | some p => return .object p
    | none => return .value .null
  | .describe v => do return .document (.text (← describe (← eval run frame v)))
  | .strictEquals a b => do
    let a ← eval run frame a
    let b ← eval run frame b
    return .bool (a.strictEquals b)
  | .handleCount name => do
    let w ← get
    match w.roots.values.find? name with
    | some (.object id) => return .nat ({ w with held := w.held.tail }.count (.object id))
    | _ => fail "bad_input" "expected an object"
  | .inspect v => do return .document (← inspect (← eval run frame v))
  | .define obj specs => do
    let id ← evalObject run frame obj
    let ds ← specs.mapM (definition run frame)
    defineAll cx id ds
    return .document (.list (ds.map attributes))
  | .defineClass name code data specs => do
    let ds ← specs.mapM (definition run frame)
    return .object (← defineClass cx name (.stock code) data ds)
  | .wrap obj data => do
    wrap cx (← evalObject run frame obj) (.plain data)
    return .done
  | .unwrap obj => do return .document (← unwrap cx (← evalObject run frame obj))
  | .addFinalizer obj label => do
    addFinalizer cx (← evalObject run frame obj) label
    return .done
  | .reportException v => do
    reportException cx (← eval run frame v)
    return .done
where
  cx := frame.context

/-- Carries out an action on promises and loops. -/
def performLoop (frame : Frame) : LoopAction → Engine Answer
  | .newPromise name => do
    newPromise cx name
    return .bool true
  | .settle name fulfil v => do
    let v ← eval run frame v
    settle run cx (← takeResolver name) fulfil v
    return .done
  | .dropResolver name => do
    let _ ← takeResolver name
    return .done
  | .onSettled promise label body => do
    onSettled run cx (← evalObject run frame promise) { label, body }
    return .done
  | .promiseState v => do return .document (← promiseState cx (← eval run frame v))
  | .keepLoop name => do
    modifyRoots fun r => { r with loops := r.loops.put name cx }
    return .bool true
  | .liveRegistrations name => do
    let target ← named (·.loops.find? name)
    return .nat ((((← get).loop? target).map (·.live)).getD 0)
  | .newTicket name loop => do return .bool (← newTicket cx name loop)
  | .sendTicket name label body => do
    sendTicket name label body
    return .done
  | .dropTicket name => do
    dropTicket name
    return .done
  | .runPending => do return .nat (← runPending run cx)
  | .runUntilIdle waits => do return .bool (← runUntilIdle run cx waits rounds)
  | .loopState => do return .document (← loopState cx)
  | .bridgeState => do return .document (← bridgeState cx)
where
  cx := frame.context
  /-- More rounds than any session that comes to an end needs. -/
  rounds : Nat := 100000

/-- Carries out an action on conversions and classes. -/
def performClass (frame : Frame) : ClassAction → Engine Answer
  | .toForeign r => do return .value (← convertToForeign run cx (← buildValue r))
  | .canToForeign r => do
    let v ← buildValue r
    return .bool ((← registry cx).canToForeign v)
  | .fromForeign v type keepAs => do
    let native ← convertFromForeign cx (← eval run frame v) type
    hold native.refs
    if let some name := keepAs then assignNative name native
    return .document ((← get).showNative native)
  | .canFromForeign v type => do
    let v ← eval run frame v
    return .bool (← canFromForeign cx (← registry cx) v type)
  | .registry types => do return .document (← registryState cx types)
  | .exportAll target => do
    let id ← evalObject run frame target
    exportClasses cx id
    return .document (.texts (← object id).keys)
  | .classOf cls => do return .object (← classOf cx cls)
  | .wrapNative cls r => do return .value (← wrapNative run cx cls (← buildValue r))
  | .wrapInstance cls r => do
    let inst ← instanceOf cls (← buildValue r)
    return .object (← wrapInstance run cx cls inst)
  | .hostClass name => do return .value (← exportedClass run cx name)
  | .hostConstruct name args => do
    let args ← evalAll run frame args
    return .object (← constructExported run cx name args)
  | .hostExports => do return .object (← exportsOf cx)
where
  cx := frame.context

/-- Carries out an action on native instances, handles, events, deferreds and buffers. -/
def performNative (frame : Frame) : NativeAction → Engine Answer
  | .newNative name cls matrix => do
    newNative name cls matrix
    return .done
  | .dropNative name =>
    giveUp (·.natives.find? name) (fun r => { r with natives := r.natives.remove name })
      NativeValue.refs
  | .callNative name cls c => do
    let v ← named (·.natives.find? name)
    return .document (← callNative (← instanceOf cls v) cls c)
  | .newHandle name cls source => do return .document (← newHandle name cls source)
  | .bindHandle name obj => do
    let id ← evalObject run frame obj
    return .document (← bindNamed cx name id)
  | .dropHandle name =>
    giveUp (·.handles.find? name) (fun r => { r with handles := r.handles.remove name })
      fun h => [.handle h]
  | .handleOf obj => do
    match ← handleOf cx (← evalObject run frame obj) with
    | some (_, h) => return .document (handleState (← get) h)
    | none => return .done
  | .watchObject name obj => do
    match ← handleOf cx (← evalObject run frame obj) with
    | some (id, h) =>
      watch name id h
      return .done
    | none => fail "bad_input" "expected a handle"
  | .watchHandle name handle => do
    let id ← named (·.handles.find? handle)
    if let some h := (← get).handle? id then watch name id h
    return .done
  | .watchState name => do return .document (← watchState name)
  | .newSource name => do
    assignSource name (← createSource)
    return .done
  | .sourceOf inst cls name => do return .bool (← nameSource inst cls name)
  | .sinkCount name => do
    let id ← named (·.sources.find? name)
    return .nat ((((← get).source? id).map (·.connections.length)).getD 0)
  | .emit name index args => do
    let id ← named (·.sources.find? name)
    emit id index (← buildValues args)
    return .done
  | .connect name source cls => do return .document (← connectNamed cx name source cls)
  | .subscribe name channel callback => do
    let (id, _) ← namedChannels name
    let callback ← callback.mapM (eval run frame)
    match ← subscribe cx id channel callback with
    | .ok () => return .done
    | .error e => fail e.kind e.message
  | .isSubscribed name channel => do
    let (_, c) ← namedChannels name
    return .bool (hasSubscriber c channel)
  | .disconnect name =>
    giveUp (·.channels.find? name) (fun r => { r with channels := r.channels.remove name })
      fun c => [.channels c]
  | .newDeferred name => do
    assignDeferred name (← createDeferred)
    return .done
  | .completeDeferred name status r => do
    let id ← named (·.deferreds.find? name)
    return .bool (← complete id status (← buildValue r))
  | .deferredState name => do
    let id ← named (·.deferreds.find? name)
    return .document ((← get).showNative (.deferred id))
  | .dropDeferred name =>
    giveUp (·.deferreds.find? name) (fun r => { r with deferreds := r.deferreds.remove name })
      fun d => [.deferred d]
  | .newBuffer name bytes label => do
    assignBuffer name (← createBuffer bytes label)
    return .done
  | .cloneBuffer name source => do
    assignBuffer name (← named (·.buffers.find? source))
    return .done
  | .dropBuffer name =>
    giveUp (·.buffers.find? name) (fun r => { r with buffers := r.buffers.remove name })
      fun b => [.storage b.storage]
  | .bufferInfo name => do return .document (← bufferInfo name)
  | .sameBuffer name other => do
    let a ← named (·.buffers.find? name)
    let b ← named (·.buffers.find? other)
    return .bool (a.storage = b.storage)
where
  cx := frame.context

/-- Carries out an action. -/
def perform (frame : Frame) : Action → Engine Answer
  | .onContext a => performContext frame.context a
  | .onObject a => performObject run frame a
  | .onLoop a => performLoop run frame a
  | .onClass a => performClass run frame a
  | .onNative a => performNative run frame a

/-- Runs a step: carries out its action, shows the answer, keeps it if asked to, and waits for the
background work that it caused. -/
def runStep (frame : Frame) (s : Step) : Engine Document := do
  let shown ← framed do
    match ← perform run frame s.action with
    | .document d => return d
    | .value v =>
      let shown := (← get).showForeign frame.context v
      if let some name := s.keep then assign name v
      return shown
  finishJobs
  return shown

end Isthmus.Session
