import Isthmus.World.Release

/-!
# World/Operation — what happens at once

Each operation here is one step of the runtime: nothing comes between its parts, whichever thread it
runs on.  An operation that gives references up says so in a list, for `World.release` to do.
-/

namespace Isthmus.World

/-- Registers with a loop and queues a wake; a closed loop drops it. -/
def send (w : World) (cx : ContextId) (wake : Wake) : World × List Farewell :=
  (w.register cx).post cx wake

/-! ## Errands

A firing and a completion have more than one step, and steps of other threads may come between: what is
begun and not queued yet is an errand.  An errand stands between `before` and `after` in the list of all. -/

/-- A firing takes its subscriber. -/
def aim (w : World) (cx : ContextId) (token : Token) (args : List NativeValue) : World :=
  { w with
    errands := .aimed cx token args :: w.errands
    history := .aimed cx token args :: w.history }

/-- An errand registers with a loop. -/
def arm (w : World) (before after : List Errand) (cx : ContextId) (wake : Wake) : World :=
  { w with errands := before ++ Errand.armed cx wake :: after }.register cx

/-- An errand queues its wake; a closed loop drops it. -/
def launch (w : World) (before after : List Errand) (cx : ContextId) (wake : Wake) :
    World × List Farewell :=
  if (w.loopOf cx).isOpen then { w with errands := before ++ after }.post cx wake
  else
    ({ w with
        errands := before ++ after
        history := .dropped cx wake :: w.history }.unregister cx, wake.refs.map .letGo)

/-! ## Contexts -/

/-- Adds a context with its loop. -/
def openContext (w : World) (global : ObjectId) : World :=
  { w with
    contexts := w.contexts.insert { global }
    loops := w.loops.insert {} }

/-- Installs the bridge on a context. -/
def install (w : World) (cx : ContextId) (registry : Registry) : World :=
  let id : InstallationId := ⟨w.installations.next⟩
  { w with
    installations := w.installations.insert { registry }
    contexts := w.contexts.modify cx.index ({ · with data := some (.bridge id) })
    history := .installed cx id registry :: w.history }

/-- Has a context carry something else than a bridge. -/
def unbind (w : World) (cx : ContextId) (text : Option String) : World :=
  { w with
    contexts := w.contexts.modify cx.index ({ · with data := text.map .text })
    history := .unbound cx :: w.history }

/-- Takes a context away.  What is queued for it is dropped, and its loop takes nothing in any more. -/
def closeContext (w : World) (cx : ContextId) : World × List Farewell :=
  let queue := (w.loopOf cx).queue
  ({ w with
      contexts := w.contexts.erase cx.index
      loops := w.loops.modify cx.index fun l =>
        { l with queue := [], live := l.live - queue.length, isOpen := false }
      history := queue.map (.dropped cx) ++ .unbound cx :: w.history },
    (queue.flatMap Wake.refs).map .letGo)

/-- Opens a handle scope for the host of a context. -/
def openScope (w : World) (cx : ContextId) : World :=
  { w with
    contexts := w.contexts.modify cx.index fun c => { c with depth := c.depth + 1 }
    history := .opened cx :: w.history }

/-- Closes a handle scope of the host. -/
def closeScope (w : World) (cx : ContextId) : World :=
  { w with
    contexts := w.contexts.modify cx.index fun c => { c with depth := c.depth - 1 }
    history := .closed cx :: w.history }

/-! ## Deferreds -/

/-- Adds a pending deferred. -/
def newDeferred (w : World) : World :=
  { w with deferreds := w.deferreds.insert {} }

/-- Gives a deferred its outcome. -/
def fulfil (w : World) (id : DeferredId) (d : Deferred Settlement) (status : DeferredStatus)
    (v : NativeValue) : World :=
  { w with
    deferreds := w.deferreds.modify id.index fun _ => d
    history := .completed id status v :: w.history }

/-- Settling the promise that waits for a deferred, once the deferred is complete. -/
def errandsOf (status : DeferredStatus) (v : NativeValue) (continuation : Option Settlement) :
    List Errand :=
  continuation.toList.map fun k => .armed k.context (.settle k.slot status v)

/-- Completes a deferred; nothing if it was complete.  That the promise that waits for it is settled is an
errand from then on. -/
def determine (w : World) (id : DeferredId) (status : DeferredStatus) (v : NativeValue) :
    Option World := do
  let (d, continuation) ← (← w.deferred? id).complete status v
  return { w.fulfil id d status v with errands := errandsOf status v continuation ++ w.errands }

/-- Completes a deferred and has the promise that waits for it settled, with nothing between the two;
nothing if it was complete. -/
def complete (w : World) (id : DeferredId) (status : DeferredStatus) (v : NativeValue) :
    Option (World × List Farewell) := do
  let (d, continuation) ← (← w.deferred? id).complete status v
  return match continuation with
    | some k => (w.fulfil id d status v).launch [] w.errands k.context (.settle k.slot status v)
    | none => (w.fulfil id d status v, [])

/-- Waits for a deferred with a new registration.  A wait that this one replaces ends unheard. -/
def await (w : World) (id : DeferredId) (d : Deferred Settlement) (k : Settlement) :
    World × List Farewell :=
  let (d, attached) := d.attach k
  let w := { w with deferreds := w.deferreds.modify id.index fun _ => d }
  match attached with
  | .waiting none => (w.register k.context, [])
  | .waiting (some old) => ((w.register k.context).unregister old.context, [])
  | .ready status v => w.send k.context (.settle k.slot status v)

/-- Adds a promise for a deferred, parked in a slot of an installation. -/
def park (w : World) (cx : ContextId) (home : InstallationId) (slot : Nat) (id : DeferredId) :
    World :=
  let promise : ObjectId := ⟨w.objects.next⟩
  { w with
    objects := w.objects.insert { context := cx, kind := .promise (.pending []) }
    installations := w.installations.modify home.index fun i =>
      { i with resolvers := i.resolvers ++ [(slot, promise)], nextSlot := slot + 1 }
    history := .promised ⟨cx, slot⟩ promise id :: w.history }

/-- Gives a deferred a promise, parked in a slot of the current installation of a context. -/
def promise (w : World) (cx : ContextId) (home : InstallationId) (slot : Nat) (id : DeferredId)
    (d : Deferred Settlement) : World × List Farewell :=
  (w.park cx home slot id).await id d ⟨cx, slot⟩

/-- The promise in a slot of an installation. -/
def parked? (w : World) (home : InstallationId) (slot : Nat) : Option ObjectId :=
  (w.installation? home).bind fun i => (i.resolvers.find? (·.1 = slot)).map (·.2)

/-- Takes the promise out of a slot. -/
def vacate (w : World) (cx : ContextId) (home : InstallationId) (slot : Nat) (promise : ObjectId) :
    World :=
  { w with
    installations := w.installations.modify home.index fun i =>
      { i with resolvers := i.resolvers.filter (·.1 ≠ slot) }
    history := .unparked ⟨cx, slot⟩ promise :: w.history }

/-- Takes the promise out of a slot, or notes that there is none. -/
def unpark (w : World) (cx : ContextId) (home : InstallationId) (slot : Nat) : World :=
  match w.parked? home slot with
  | none => { w with history := .missed ⟨cx, slot⟩ :: w.history }
  | some promise => w.vacate cx home slot promise

/-- Notes what happened to a promise. -/
def observe (w : World) (promise : ObjectId) (e : PromiseEvent) : World :=
  { w with promises := (promise, e) :: w.promises }

/-! ## Events -/

/-- Keeps a callback in a slot of an installation. -/
def keepCallback (w : World) (home : InstallationId) (slot : Nat) (callback : ForeignValue) :
    World :=
  { w with
    installations := w.installations.modify home.index fun i =>
      { i with subscriptions := i.subscriptions ++ [(slot, callback)], nextSlot := slot + 1 }
    history := .subscribed ⟨home, slot⟩ callback :: w.history }

/-- Puts a token, or none, into a channel, in the place of the one before. -/
def switch (w : World) (id : ChannelsId) (place : Nat) (home owner : InstallationId)
    (token : Option Token) : World :=
  { w with
    channels := w.channels.modify id.index fun c =>
      { c with subscribers := c.subscribers.set place token }
    history := .switched home owner :: w.history }

/-- Puts a subscriber into a channel, or leaves the channel without, and forgets the callbacks that no
subscription wants any more. -/
def setSubscriber (w : World) (id : ChannelsId) (place : Nat) (home : InstallationId) (slot : Nat)
    (callback : Option ForeignValue) : World × List Farewell :=
  match w.channels? id, callback with
  | none, _ => (w, [])
  | some c, none => (w.switch id place home c.installation none).prune home
  | some c, some f =>
    ((w.keepCallback home slot f).switch id place home c.installation (some ⟨home, slot⟩)).prune home

/-- The subscriber that hears an event now, and the context whose loop delivers it. -/
def subscriber? (w : World) (id : ChannelsId) (event : Nat) : Option (ContextId × Token) := do
  let c ← w.channels? id
  let place ← c.indices.findIdx? (· = event)
  let token ← c.subscribers[place]?.join
  return (c.context, token)

/-- Fires an event at one set of channels, with nothing between its steps: a firing that has a subscriber
takes it, registers and queues the event. -/
def fire (w : World) (id : ChannelsId) (event : Nat) (args : List NativeValue) :
    World × List Farewell :=
  match w.subscriber? id event with
  | some (cx, token) =>
    ((w.aim cx token args).arm [] w.errands cx (.event token args)).launch [] w.errands cx
      (.event token args)
  | none => (w, [])

/-- Notes what comes of an event that is being delivered. -/
def hear (w : World) (cx : ContextId) (token : Token) (args : List NativeValue)
    (verdict : Verdict) : World :=
  { w with history := .heard cx token args verdict :: w.history }

/-! ## Deliveries -/

/-- Begins the delivery of a wake in a handle scope of its own; `rest` stays queued. -/
def pop (w : World) (cx : ContextId) (wake : Wake) (rest : List Wake) : World :=
  { w with
    loops := w.loops.modify cx.index ({ · with queue := rest })
    delivering := (cx, wake) :: w.delivering
    contexts := w.contexts.modify cx.index fun c => { c with depth := c.depth + 1 }
    history := .taken cx wake :: w.history }

/-- Takes the next wake of a loop to deliver it. -/
def take (w : World) (cx : ContextId) : Option (Wake × World) :=
  match (w.loopOf cx).queue with
  | [] => none
  | wake :: rest => some (wake, w.pop cx wake rest)

/-- Ends the innermost delivery with its handle scope and its registration. -/
def finish (w : World) (cx : ContextId) (wake : Wake) (broke : Bool) : World :=
  { w with
    contexts := w.contexts.modify cx.index fun c => { c with depth := c.depth - 1 }
    delivering := w.delivering.tail
    history := .ended cx wake broke :: w.history }.unregister cx

/-! ## Tickets -/

/-- Names a new registration with a loop; one that had the name is over. -/
def newTicket (w : World) (name : String) (cx : ContextId) : World :=
  let w' := { w with roots.tickets := w.roots.tickets.put name cx }.register cx
  match w.roots.tickets.find? name with
  | some other => w'.unregister other
  | none => w'

/-- Uses a named registration to queue a script. -/
def sendTicket (w : World) (name : String) (cx : ContextId) (label : String)
    (body : List Script.Step) : World × List Farewell :=
  { w with roots.tickets := w.roots.tickets.remove name }.post cx (.script label body)

/-- Gives a named registration up. -/
def dropTicket (w : World) (name : String) (cx : ContextId) : World :=
  { w with roots.tickets := w.roots.tickets.remove name }.unregister cx

end Isthmus.World
