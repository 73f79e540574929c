import Isthmus.Bridge.Registry
import Isthmus.Document.Basic
import Isthmus.File
import Isthmus.Foreign.Object
import Isthmus.Native.EventSource
import Isthmus.World.Store

/-!
# World/Basic — everything a session can reach

The world holds foreign objects and native instances, the contexts with their loops, the bridge
installed on them, background jobs, and the names by which a session refers to all of these.  Things
refer to each other by keys; how many references there are to a thing is not stored but counted (see
`World.references`).
-/

namespace Isthmus

/-! ## Identities -/

/-- The identity of an event source. -/
structure SourceId where
  index : Nat
  deriving DecidableEq, Repr, Inhabited

/-- The identity of a connected set of event channels. -/
structure ChannelsId where
  index : Nat
  deriving DecidableEq, Repr, Inhabited

/-- The identity of an installation of the bridge. -/
structure InstallationId where
  index : Nat
  deriving DecidableEq, Repr, Inhabited

/-- Keeps a subscription alive: the slot of an installation. -/
structure Token where
  installation : InstallationId
  slot : Nat
  deriving DecidableEq, Repr

/-! ## Native things -/

/-- A native instance. -/
inductive Instance where
  | calculator (c : Calculator)
  | matrix (m : Matrix)
  | imaging
  | ticker (value : Int32) (source : SourceId)
  | puppet (index : Fin 3) (slots : List (Option NativeValue)) (source : SourceId)
  | plain
  /-- An instance of no known class. -/
  | stranger

/-- The class of an instance. -/
def Instance.class? : Instance → Option ClassKey
  | calculator _ => some .calculator
  | matrix _ => some .matrix
  | imaging => some .imaging
  | ticker .. => some .ticker
  | puppet i .. => some (.puppet i)
  | plain => some .plain
  | stranger => none

/-- Who owns the instance of a handle. -/
inductive Ownership where
  | exclusive
  | shared
  deriving DecidableEq, Repr

/-- How far a handle has come. -/
inductive HandleState where
  | unbound
  | bound
  | released
  deriving DecidableEq, Repr

/-- A native instance on its way to, or attached to, a foreign object. -/
structure Handle where
  cls : ClassKey
  inst : InstanceId
  ownership : Ownership
  state : HandleState := .unbound
  channels : Option ChannelsId := none

/-- The settlement of a promise that waits for a deferred: a slot of the bridge on a context. -/
structure Settlement where
  context : ContextId
  slot : Nat
  deriving DecidableEq, Repr

/-- Background work. -/
inductive Job where
  /-- Works on an image and completes a deferred. -/
  | image (deferred : DeferredId) (work : Imaging.Work)
  /-- Counts a ticker up. -/
  | count (inst : InstanceId) (count : Ticker.Count)
  /-- Completes a deferred, or only lets go of it. -/
  | complete (deferred : DeferredId) (outcome : Option (DeferredStatus × NativeValue))
  /-- Fires an event. -/
  | emit (source : SourceId) (event : Nat) (args : List NativeValue)

/-! ## The bridge -/

/-- The event channels of a source, each with room for one subscriber. -/
structure Channels where
  /-- The context whose loop delivers. -/
  context : ContextId
  /-- The method indices of the channels. -/
  indices : List Nat
  signatures : List String
  subscribers : List (Option Token)
  source : SourceId
  connection : ConnectionId
  /-- The installation that keeps the callbacks. -/
  installation : InstallationId

/-- The bridge on a context. -/
structure Installation where
  registry : Registry
  /-- The classes defined so far. -/
  classes : List (ClassKey × ObjectId) := []
  /-- The promises that wait for a deferred, by slot. -/
  resolvers : List (Nat × ObjectId) := []
  /-- The callbacks of subscriptions, by slot. -/
  subscriptions : List (Nat × ForeignValue) := []
  nextSlot : Nat := 1

/-! ## Contexts and loops -/

/-- Work queued for a context. -/
inductive Wake where
  /-- A deferred is complete: settle the promise in a slot. -/
  | settle (slot : Nat) (status : DeferredStatus) (value : NativeValue)
  /-- An event was fired while a subscription was current. -/
  | event (token : Token) (args : List NativeValue)
  /-- A script was sent. -/
  | script (label : String) (body : List Script.Step)

/-- What a thread has begun to queue for a context. -/
inductive Errand where
  /-- A firing has taken its subscriber. -/
  | aimed (cx : ContextId) (token : Token) (args : List NativeValue)
  /-- A wake has its registration. -/
  | armed (cx : ContextId) (wake : Wake)

/-- The queue of a context; it outlives the context, but then takes nothing in. -/
structure Loop where
  queue : List Wake := []
  /-- Registrations: things that still may arrive or are being delivered. -/
  live : Nat := 0
  isOpen : Bool := true

/-- What a context carries for its host. -/
inductive ContextData where
  | bridge (id : InstallationId)
  | text (value : String)
  deriving DecidableEq, Repr

/-- A context of foreign code. -/
structure Context where
  global : ObjectId
  data : Option ContextData := none
  /-- Open handle scopes. -/
  depth : Nat := 0
  diagnostics : List String := []
  /-- The object with the exported classes, on a host. -/
  exported : Option ObjectId := none

/-! ## What happened

Some of what a run is about does not show in the state that it leads to: which promise was given to which
deferred, what was queued and in which order, which subscriber heard what.  The world keeps a list of
these occurrences.  No operation reads it; the laws about runs speak of it. -/

/-- Why an action stopped early. -/
inductive Stop where
  /-- Foreign code threw a value. -/
  | thrown (v : ForeignValue)
  /-- The action reports a failure. -/
  | failed (kind message : String)
  /-- A contract was broken. -/
  | aborted (text : String)
  /-- The action did not come to an end. -/
  | exhausted

/-- What came of an event that was taken for delivery. -/
inductive Verdict where
  /-- A subscriber is called with the converted arguments. -/
  | called (callback : ForeignValue) (values : List ForeignValue)
  /-- No subscription was found. -/
  | unheard
  /-- The arguments did not convert. -/
  | refused (stop : Stop)

/-- Something that happened. -/
inductive Occurrence where
  /-- The bridge was installed on a context. -/
  | installed (cx : ContextId) (id : InstallationId) (registry : Registry)
  /-- A context was given something else to carry, or went. -/
  | unbound (cx : ContextId)
  /-- A promise was made for a deferred. -/
  | promised (k : Settlement) (promise : ObjectId) (deferred : DeferredId)
  /-- A deferred was completed, or dropped while something waited for it. -/
  | completed (deferred : DeferredId) (status : DeferredStatus) (value : NativeValue)
  /-- A firing took the subscriber that was current. -/
  | aimed (cx : ContextId) (token : Token) (args : List NativeValue)
  /-- A wake was queued. -/
  | sent (cx : ContextId) (wake : Wake)
  /-- The delivery of a wake began. -/
  | taken (cx : ContextId) (wake : Wake)
  /-- The promise to settle was taken out of its slot. -/
  | unparked (k : Settlement) (promise : ObjectId)
  /-- There was no promise in the slot to settle. -/
  | missed (k : Settlement)
  /-- A callback was subscribed. -/
  | subscribed (token : Token) (callback : ForeignValue)
  /-- The subscriber of a channel was changed by way of an installation; `owner` is the channel's own. -/
  | switched (home owner : InstallationId)
  /-- It was decided what becomes of an event. -/
  | heard (cx : ContextId) (token : Token) (args : List NativeValue) (verdict : Verdict)
  /-- The delivery of a wake ended; it broke off if it was aborted. -/
  | ended (cx : ContextId) (wake : Wake) (broke : Bool)
  /-- A wake went with its context, which had it queued or was to have it. -/
  | dropped (cx : ContextId) (wake : Wake)
  /-- An installation forgot the callbacks that no subscription wants. -/
  | pruned (id : InstallationId)
  /-- The host opened a handle scope of a context. -/
  | opened (cx : ContextId)
  /-- The host closed one of its handle scopes. -/
  | closed (cx : ContextId)

/-- Something that happened to a promise. -/
inductive PromiseEvent where
  | registered (r : Reaction)
  /-- The promise got its outcome: the value, or the reason of a rejection. -/
  | settled (fulfil : Bool) (v : ForeignValue)
  /-- A reaction began to run, with an outcome. -/
  | began (r : Reaction) (fulfil : Bool) (v : ForeignValue)
  /-- A reaction came to its end. -/
  | ended (r : Reaction)

/-! ## Names -/

/-- Things under names; a name stands for one thing at a time. -/
abbrev Names (α : Type) := List (String × α)

namespace Names

variable {α : Type}

/-- The thing under a name. -/
def find? (names : Names α) (name : String) : Option α :=
  (List.find? (·.1 = name) names).map (·.2)

/-- Names a thing, in the place of the one that had the name. -/
def put (names : Names α) (name : String) (a : α) : Names α :=
  if (names.find? name).isSome then names.map fun e => if e.1 = name then (name, a) else e
  else names ++ [(name, a)]

/-- Gives a name up. -/
def remove (names : Names α) (name : String) : Names α :=
  names.filter (·.1 ≠ name)

theorem mem_of_find? {names : Names α} {name : String} {a : α} (h : names.find? name = some a) :
    ∃ e ∈ names, e.2 = a := by
  obtain ⟨e, he, rfl⟩ := Option.map_eq_some_iff.1 h
  exact ⟨e, List.mem_of_find?_eq_some he, rfl⟩

theorem mem_put {names : Names α} {name : String} {a : α} {e : String × α}
    (h : e ∈ names.put name a) : e ∈ names ∨ e.2 = a := by
  rw [put] at h
  split at h
  · obtain ⟨e', he', rfl⟩ := List.mem_map.1 h
    split
    · exact .inr rfl
    · exact .inl he'
  · obtain h | h := List.mem_append.1 h
    · exact .inl h
    · exact .inr (List.mem_singleton.1 h ▸ rfl)

end Names

/-- The names of a session. -/
structure Roots where
  contexts : Names ContextId := []
  values : Names ForeignValue := []
  natives : Names NativeValue := []
  handles : Names HandleId := []
  sources : Names SourceId := []
  channels : Names ChannelsId := []
  deferreds : Names DeferredId := []
  buffers : Names Buffer := []
  /-- The promises that a script may still settle. -/
  resolvers : Names ObjectId := []
  /-- Registrations that are not used yet. -/
  tickets : Names ContextId := []
  loops : Names ContextId := []
  /-- Handles and instances that are watched, but not kept. -/
  watches : Names (HandleId × InstanceId) := []

/-! ## The world -/

/-- Something that is kept as long as it is referred to. -/
inductive Ref where
  | object (id : ObjectId)
  | handle (id : HandleId)
  | inst (id : InstanceId)
  | deferred (id : DeferredId)
  | source (id : SourceId)
  | channels (id : ChannelsId)
  | installation (id : InstallationId)
  /-- The bytes of a buffer, by the identity of their storage. -/
  | storage (id : Nat)
  deriving DecidableEq, Repr

/-- Everything a session can reach. -/
structure World where
  plans : Plans := {}
  files : Files := {}
  objects : Store Object := .empty
  handles : Store Handle := .empty
  instances : Store Instance := .empty
  deferreds : Store (Deferred Settlement) := .empty
  sources : Store (EventSource ChannelsId) := .empty
  channels : Store Channels := .empty
  installations : Store Installation := .empty
  contexts : Store Context := .empty
  loops : Store Loop := .empty
  /-- The storages of buffers, each with the label to report when it goes. -/
  storages : Store (Option String) := .empty
  /-- The identity of the next connection. -/
  nextConnection : Nat := 0
  /-- Background work that was submitted, oldest first. -/
  jobs : List Job := []
  /-- What the running actions keep for their own duration, innermost action first. -/
  held : List (List Ref) := []
  /-- The wakes that are being delivered, innermost first. -/
  delivering : List (ContextId × Wake) := []
  /-- What threads have begun to queue. -/
  errands : List Errand := []
  roots : Roots := {}
  current : ContextId := ⟨0⟩
  /-- What was logged, newest first. -/
  log : List Document := []
  /-- What happened, newest first. -/
  history : List Occurrence := []
  /-- What happened to promises, newest first. -/
  promises : List (ObjectId × PromiseEvent) := []

namespace World

def object? (w : World) (o : ObjectId) : Option Object :=
  w.objects.get? o.index

/-- What a value refers to is there. -/
def isPresent (w : World) : ForeignValue → Bool
  | .object o => (w.object? o).isSome
  | _ => true

def handle? (w : World) (h : HandleId) : Option Handle :=
  w.handles.get? h.index

def instance? (w : World) (i : InstanceId) : Option Instance :=
  w.instances.get? i.index

def deferred? (w : World) (d : DeferredId) : Option (Deferred Settlement) :=
  w.deferreds.get? d.index

def source? (w : World) (s : SourceId) : Option (EventSource ChannelsId) :=
  w.sources.get? s.index

def channels? (w : World) (c : ChannelsId) : Option Channels :=
  w.channels.get? c.index

def installation? (w : World) (i : InstallationId) : Option Installation :=
  w.installations.get? i.index

def context? (w : World) (c : ContextId) : Option Context :=
  w.contexts.get? c.index

def loop? (w : World) (c : ContextId) : Option Loop :=
  w.loops.get? c.index

/-- The loop of a context; one that does not exist is empty. -/
def loopOf (w : World) (c : ContextId) : Loop :=
  (w.loop? c).getD { isOpen := false }

/-- The installation that is current on a context. -/
def bridge? (w : World) (c : ContextId) : Option (InstallationId × Installation) := do
  let .bridge id ← (← w.context? c).data | none
  return (id, ← w.installation? id)

end World

end Isthmus
