import Isthmus.Bridge.ToForeign

/-!
# Engine/Loop — delivering what is queued for a context

Wakes are delivered in the order in which they were queued, each in a handle scope of its own.  A throw
that leaves a delivery goes to the diagnostics, and the registration of a wake ends with its delivery.
-/

namespace Isthmus.Engine

variable (run : Runner)

/-- Settles a promise with the outcome of its deferred, or with why that does not convert.  Left out is the
warning that goes to the log of the host where a value does not convert, with the text of the reason that is
made for it. -/
def settleFuture (cx : ContextId) (registry : Registry) (promise : ObjectId)
    (status : DeferredStatus) (v : NativeValue) : Engine Unit := do
  match ← attempt (toForeign run cx registry v) with
  | .ok (.ok foreign) => settle run cx promise (status = .resolved) foreign
  | .ok (.error e) =>
    settle run cx promise false (.string ("cannot convert settled value of type " ++
      ClassKey.typeName v.typeId ++ ": " ++ e.message))
  | .error (.thrown reason) => settle run cx promise false reason
  | .error stop => throw stop

/-- Settles the promise in a slot with the outcome of its deferred. -/
def deliverSettlement (cx : ContextId) (slot : Nat) (status : DeferredStatus) (v : NativeValue) :
    Engine Unit := do
  let (registry, promise) ← unpark cx slot
  settleFuture run cx registry promise status v

/-- The foreign arguments of an event. -/
def eventArguments (cx : ContextId) (registry : Registry) :
    List NativeValue → Engine (List ForeignValue)
  | [] => return []
  | v :: rest => do
    let failed (text : String) : Engine ForeignValue :=
      raiseError cx ("event argument of type " ++ ClassKey.typeName v.typeId ++ ": " ++ text)
    let first ← match ← attempt (toForeign run cx registry v) with
      | .ok (.ok foreign) => pure foreign
      | .ok (.error e) => failed e.message
      | .error (.thrown _) => failed ConvertError.thrownMessage
      | .error stop => throw stop
    return first :: (← eventArguments cx registry rest)

/-- The subscriber that was current when an event was fired, if it is still kept, and the registry that
converts for it. -/
def recipient? (cx : ContextId) (token : Token) : Engine (Option (Registry × ForeignValue)) := do
  let (id, installation) ← bridge cx
  hold [.installation id]
  match ← callback? id token.slot with
  | none => return none
  | some callback =>
    hold callback.refs
    return some (installation.registry, callback)

/-- The subscriber that was current when an event was fired, if it is still kept, and the arguments to
call it with. -/
def prepareEvent (cx : ContextId) (token : Token) (args : List NativeValue) :
    Engine (Option (ForeignValue × List ForeignValue)) := do
  match ← recipient? cx token with
  | none => return none
  | some (registry, callback) => return some (callback, ← eventArguments run cx registry args)

/-- Calls the subscriber that was current when an event was fired. -/
def deliverEvent (cx : ContextId) (token : Token) (args : List NativeValue) : Engine Unit := do
  let decide (verdict : Verdict) : Engine Unit := modify (·.hear cx token args verdict)
  match ← attempt (prepareEvent run cx token args) with
  | .ok (some (callback, values)) =>
    decide (.called callback values)
    let _ ← call run cx callback .undefined values
  | .ok none => decide .unheard
  | .error stop =>
    decide (.refused stop)
    throw stop

/-- Does what a wake asks for. -/
def runWake (cx : ContextId) : Wake → Engine Unit
  | .settle slot status v => deliverSettlement run cx slot status v
  | .event token args => deliverEvent run cx token args
  | .script label body => run.deliver cx label body

/-- Routes an uncaught throw to the diagnostics. -/
def reportException (cx : ContextId) (v : ForeignValue) : Engine Unit := do
  report cx (← describe v)

/-- Does what a wake asks for; a throw that leaves it goes to the diagnostics. -/
def runDelivery (cx : ContextId) (wake : Wake) : Engine Unit := do
  match ← attempt (runWake run cx wake) with
  | .error (.thrown v) =>
    hold v.refs
    reportException cx v
  | other => resume other

/-- Delivers a wake that was taken.  The delivery ends however that went. -/
def deliver (cx : ContextId) (wake : Wake) : Engine Unit := do
  openFrame
  let result ← attempt (runDelivery run cx wake)
  modify (·.finish cx wake (result matches .error _))
  closeFrame
  resume result

/-- Delivers the next wake of a loop; answers whether there was one. -/
def deliverNext (cx : ContextId) : Engine Bool := do
  match (← get).take cx with
  | none => return false
  | some (wake, w) =>
    set w
    deliver run cx wake
    return true

/-- Delivers at most `count` wakes; answers how many there were. -/
def deliverMany (cx : ContextId) : Nat → Engine Nat
  | 0 => return 0
  | count + 1 => do if ← deliverNext run cx then return (← deliverMany cx count) + 1 else return 0

/-- Delivers the wakes that are queued now; those that come meanwhile wait for the next time. -/
def runPending (cx : ContextId) : Engine Nat := do
  deliverMany run cx ((← get).loopOf cx).queue.length

/-- Nothing is queued or outstanding. -/
def isIdle (w : World) (cx : ContextId) : Bool :=
  (w.loopOf cx).live = 0

/-- Delivers until the loop is idle, in at most `rounds` rounds; answers whether it became idle.  A loop
that waits for something outside gives up. -/
def pump (cx : ContextId) : Nat → Engine Bool
  | 0 => throw .exhausted
  | rounds + 1 => do
    let _ ← runPending run cx
    if isIdle (← get) cx then return true
    if ← deliverNext run cx then pump cx rounds else return false

/-- Delivers until the loop is idle; answers whether it became idle.  A loop that may not wait delivers
only what is queued now. -/
def runUntilIdle (cx : ContextId) (waits : Bool) (rounds : Nat) : Engine Bool := do
  if waits then pump run cx rounds
  else
    let _ ← runPending run cx
    return isIdle (← get) cx

end Isthmus.Engine
