import Isthmus.Proofs.Run.History
import Isthmus.Session.Run
import Mathlib.Logic.Relation

/-!
# Proofs/Run/Move — how a world can move

A run is a sequence of moves.  A move is one operation of the runtime that nothing comes between, made
by whichever thread; moves of different threads may follow each other in any order, so `Reachable`
covers every interleaving.  What a session does is a sequence of moves as well (`Proofs/Run/Session`).

A firing takes its subscriber, registers and queues its event in moves of its own, and a completion decides
the outcome before its wake is queued; what a thread has begun is an `Errand`.  A delivery may begin at any
moment, also while another one converts the arguments of its event.

Most of what foreign code does to objects, handles and instances is a `Quiet` move: it leaves the loops,
deferreds, installations, channels, deliveries and the history as they are.
-/

namespace Isthmus

/-! ## Quiet moves -/

/-- Objects are added and changed, but none goes, and none changes its context or its kind; a pending
promise may get more reactions.  A new array is made of objects that are older. -/
structure ObjectsKept (s s' : Store Object) : Prop where
  next_le : s.next ≤ s'.next
  kept : ∀ id o, s.get? id = some o → ∃ o', s'.get? id = some o' ∧ o'.context = o.context ∧
    (o'.kind = o.kind ∨ ∃ r r', o.kind = .promise (.pending r) ∧ o'.kind = .promise (.pending r'))
  old_or_new : ∀ id o', s'.get? id = some o' → (∃ o, s.get? id = some o) ∨ s.next ≤ id
  nested : ∀ id o items, s'.get? id = some o → s.next ≤ id → o.kind = .array items →
    ∀ p, .object p ∈ items → p.index < id

namespace ObjectsKept

theorem refl (s : Store Object) : ObjectsKept s s where
  next_le := Nat.le_refl _
  kept _ o h := ⟨o, h, rfl, .inl rfl⟩
  old_or_new _ o h := .inl ⟨o, h⟩
  nested _ _ _ h hn := absurd (Store.lt_next_of_get? h) (Nat.not_lt.2 hn)

theorem of_eq {s s' : Store Object} (h : s' = s) : ObjectsKept s s' :=
  h ▸ refl s

theorem insert (s : Store Object) (o : Object)
    (ho : ∀ items, o.kind = .array items → ∀ p, .object p ∈ items → p.index < s.next) :
    ObjectsKept s (s.insert o) where
  next_le := Nat.le_succ _
  kept id o' h := by
    have hn : id ≠ s.next := Nat.ne_of_lt (Store.lt_next_of_get? h)
    exact ⟨o', by rw [Store.get?_insert, if_neg hn, h], rfl, .inl rfl⟩
  old_or_new id o' h := by
    rw [Store.get?_insert] at h
    split at h
    · next hn => exact .inr (Nat.le_of_eq hn.symm)
    · exact .inl ⟨o', h⟩
  nested id o' items h hle hk p hp := by
    rw [Store.get?_insert] at h
    split at h
    · next hn =>
      cases h
      exact hn ▸ ho items hk p hp
    · exact absurd (Store.lt_next_of_get? h) (Nat.not_lt.2 hle)

/-- An object changes, but stays what it is. -/
theorem modify (s : Store Object) (id : ObjectId) {f : Object → Object}
    (hf : ∀ o, s.get? id.index = some o → (f o).context = o.context ∧ ((f o).kind = o.kind ∨
      ∃ r r', o.kind = .promise (.pending r) ∧ (f o).kind = .promise (.pending r'))) :
    ObjectsKept s (s.modify id.index f) where
  next_le := Nat.le_refl _
  kept key o h := by
    rw [Store.get?_modify]
    split
    · next hk =>
      subst hk
      exact ⟨f o, by rw [h]; rfl, hf o h⟩
    · exact ⟨o, h, rfl, .inl rfl⟩
  old_or_new key o h := by
    rw [Store.get?_modify] at h
    split at h
    · obtain ⟨o', ho', -⟩ := Option.map_eq_some_iff.1 h
      exact .inl ⟨o', by simpa [*] using ho'⟩
    · exact .inl ⟨o, h⟩
  nested key o _ h hle := absurd (Store.lt_next_of_get? h) (Nat.not_lt.2 hle)

end ObjectsKept

/-- What a context carries, and how many handle scopes are open. -/
def Context.core (c : Context) : Option ContextData × Nat :=
  (c.data, c.depth)

/-- Nothing changes that the laws about loops, promises and events speak of. -/
structure Quiet (w w' : World) : Prop where
  objects : ObjectsKept w.objects w'.objects
  deferreds : w'.deferreds = w.deferreds
  channels : w'.channels.entries = w.channels.entries
  installations : w'.installations = w.installations
  contexts : ∀ cx, (w'.context? cx).map (·.core) = (w.context? cx).map (·.core)
  contexts_next : w'.contexts.next = w.contexts.next
  loops : w'.loops = w.loops
  delivering : w'.delivering = w.delivering
  errands : w'.errands = w.errands
  tickets : w'.roots.tickets = w.roots.tickets
  history : w'.history = w.history
  /-- A named promise is one that no deferred has. -/
  resolvers : ∀ e ∈ w'.roots.resolvers,
    e ∈ w.roots.resolvers ∨ e.2.index < w'.objects.next ∧ ¬ w.IsFuture e.2

/-- What the laws about loops, promises and events speak of, apart from the objects. -/
def World.frame (w : World) :=
  (w.deferreds, w.channels.entries, w.installations, w.contexts, w.loops, w.delivering,
    w.errands, w.roots.tickets, w.roots.resolvers, w.history)

namespace Quiet

variable {w w' : World}

theorem of_frame (ho : ObjectsKept w.objects w'.objects) (hf : w'.frame = w.frame) :
    Quiet w w' := by
  simp only [World.frame, Prod.mk.injEq] at hf
  obtain ⟨hd, hch, hi, hx, hl, hdel, he, ht, hr, hh⟩ := hf
  refine ⟨ho, hd, hch, hi, fun cx => ?_, by rw [hx], hl, hdel, he, ht, hh, fun e he => .inl (hr ▸ he)⟩
  rw [World.context?, World.context?, hx]

theorem of_eq (ho : w'.objects = w.objects) (hf : w'.frame = w.frame) : Quiet w w' :=
  .of_frame (.of_eq ho) hf

end Quiet

/-! ## Moves -/

/-- **How a promise shows the outcome of its deferred**: the converted value, or why it did not
convert.  The conversion has ended in the world `w`. -/
inductive Settles (w : World) (cx : ContextId) (registry : Registry) (status : DeferredStatus)
    (v : NativeValue) : PromiseState → Prop where
  /-- The value converts. -/
  | converted {n w₀ foreign}
      (h : (Engine.toForeign (Session.runner n) cx registry v).run w₀ = .ok (.ok foreign) w) :
      Settles w cx registry status v
        (if status = .resolved then .fulfilled foreign else .rejected foreign)
  /-- The value has no conversion: the promise is rejected with a description. -/
  | described {n w₀ e}
      (h : (Engine.toForeign (Session.runner n) cx registry v).run w₀ = .ok (.error e) w) :
      Settles w cx registry status v (.rejected (.string ("cannot convert settled value of type " ++
        ClassKey.typeName v.typeId ++ ": " ++ e.message)))
  /-- The conversion throws: the promise is rejected with what was thrown. -/
  | thrown {n w₀ reason}
      (h : (Engine.toForeign (Session.runner n) cx registry v).run w₀ = .error (.thrown reason) w) :
      Settles w cx registry status v (.rejected reason)

/-- **How it is decided what becomes of an event**: the callback in the slot of its token is called with
the converted arguments.  Their conversion has ended in the world `w`. -/
inductive Fair (w : World) (cx : ContextId) (token : Token) (args : List NativeValue) :
    Verdict → Prop where
  | called {id registry n w₀ callback values}
      (hi : .installed cx id registry ∈ w.history)
      (hs : .subscribed ⟨id, token.slot⟩ callback ∈ w.history)
      (hv : (Engine.eventArguments (Session.runner n) cx registry args).run w₀ = .ok values w) :
      Fair w cx token args (.called callback values)
  | unheard {id i} (hb : w.bridge? cx = some (id, i))
      (h : w.isSubscribed ⟨id, token.slot⟩ = false ∨ ∀ e ∈ i.subscriptions, e.1 ≠ token.slot) :
      Fair w cx token args .unheard
  | unbridged {stop} (hb : w.bridge? cx = none) : Fair w cx token args (.refused stop)
  | refused {id registry n w₀ stop}
      (hi : .installed cx id registry ∈ w.history)
      (hv : (Engine.eventArguments (Session.runner n) cx registry args).run w₀ = .error stop w) :
      Fair w cx token args (.refused stop)

namespace World

/-- What a delivery begins with: a settlement takes its promise out of the slot. -/
def begin (w : World) (cx : ContextId) : Wake → World
  | .settle slot _ _ =>
    match w.bridge? cx with
    | some (home, _) => w.unpark cx home slot
    | none => w
  | _ => w

/-- Gives a promise its final state. -/
def fix (w : World) (p : ObjectId) (state : PromiseState) : World :=
  { w with objects := w.objects.modify p.index ({ · with kind := .promise state }) }

end World

/-- One move of the world. -/
inductive Move : World → World → Prop where
  | quiet {w w'} (h : Quiet w w') : Move w w'
  /-- A thing without an owner goes. -/
  | destroy {w} (r : Ref) (h : r ∉ w.references) : Move w (w.destroy r).1
  /-- A class of the context is kept. -/
  | keepClass {w cx id i o} (e : ClassKey × ObjectId) (hb : w.bridge? cx = some (id, i))
      (ho : w.object? e.2 = some o) (hc : o.context = cx) (hf : o.isFunction) :
      Move w { w with
        installations := w.installations.modify id.index fun i =>
          { i with classes := i.classes ++ [e] } }
  | openContext {w} (global : ObjectId) : Move w (w.openContext global)
  | closeContext {w} (cx : ContextId) : Move w (w.closeContext cx).1
  | install {w} {cx : ContextId} (registry : Registry) (h : (w.context? cx).isSome) :
      Move w (w.install cx registry)
  | unbind {w} (cx : ContextId) (text : Option String) : Move w (w.unbind cx text)
  | openScope {w} {cx : ContextId} (h : (w.context? cx).isSome) : Move w (w.openScope cx)
  | closeScope {w} {cx : ContextId} (h : 0 < History.scopes cx w.history) : Move w (w.closeScope cx)
  | newDeferred {w} : Move w w.newDeferred
  /-- A producer completes a deferred. -/
  | determine {w id status v w'} (h : w.determine id status v = some w') : Move w w'
  | promise {w cx home i id d} (hb : w.bridge? cx = some (home, i)) (hd : w.deferred? id = some d) :
      Move w (w.promise cx home i.nextSlot id d).1
  | connect {w} {c : Channels} {i} (hb : w.bridge? c.context = some (c.installation, i))
      (hs : ∀ s ∈ c.subscribers, s = none) : Move w { w with channels := w.channels.insert c }
  | setSubscriber {w cx home i} (id : ChannelsId) (place : Nat) (callback : Option ForeignValue)
      (hb : w.bridge? cx = some (home, i)) :
      Move w (w.setSubscriber id place home i.nextSlot callback).1
  /-- A firing takes the subscriber that is current. -/
  | aim {w id event cx token} (args : List NativeValue)
      (h : w.subscriber? id event = some (cx, token)) : Move w (w.aim cx token args)
  /-- A firing registers, whatever was done since it took its subscriber. -/
  | arm {w before after cx token args} (h : w.errands = before ++ .aimed cx token args :: after) :
      Move w (w.arm before after cx (.event token args))
  /-- A wake that has its registration is queued, whatever was done since it got that. -/
  | launch {w before after cx wake} (h : w.errands = before ++ .armed cx wake :: after) :
      Move w (w.launch before after cx wake).1
  /-- A delivery begins, also while an event is prepared for its subscriber. -/
  | take {w cx wake w'} (h : w.take cx = some (wake, w')) : Move w (w'.begin cx wake)
  | hear {w cx token args verdict} (hu : w.undecided = some (cx, token, args))
      (h : Fair w cx token args verdict) : Move w (w.hear cx token args verdict)
  /-- The delivery of a settlement gives its promise the outcome of the deferred. -/
  | settle {w cx slot status v rest p id registry state}
      (hd : w.delivering = (cx, .settle slot status v) :: rest)
      (hu : .unparked ⟨cx, slot⟩ p ∈ w.history) (hp : w.IsPending p)
      (hi : .installed cx id registry ∈ w.history) (hs : Settles w cx registry status v state) :
      Move w (w.fix p state)
  /-- A script settles a promise of its own. -/
  | settleOwn {w p} (state : PromiseState) (hf : ¬ w.IsFuture p) (hp : w.IsPending p) :
      Move w (w.fix p state)
  /-- A delivery ends.  One of a settlement that was not broken off has settled its promise. -/
  | finish {w cx wake rest broke} (hd : w.delivering = (cx, wake) :: rest) (hu : w.undecided = none)
      (hs : broke = false → ∀ slot status v, wake = .settle slot status v →
        ∃ p, .unparked ⟨cx, slot⟩ p ∈ w.history ∧ ¬ w.IsPending p) :
      Move w (w.finish cx wake broke)
  | newTicket {w} {cx : ContextId} (name : String) (h : (w.loop? cx).isSome) :
      Move w (w.newTicket name cx)
  | sendTicket {w name cx} (h : w.roots.tickets.find? name = some cx) (label : String)
      (body : List Script.Step) : Move w (w.sendTicket name cx label body).1
  | dropTicket {w name cx} (h : w.roots.tickets.find? name = some cx) :
      Move w (w.dropTicket name cx)

/-- Any number of moves. -/
abbrev Moves : World → World → Prop := Relation.ReflTransGen Move

/-- A world that some run leads to. -/
def Reachable (w : World) : Prop :=
  ∃ plans, Moves { plans } w

theorem Reachable.moves {w w' : World} (h : Reachable w) (hm : Moves w w') : Reachable w' :=
  let ⟨plans, h⟩ := h
  ⟨plans, h.trans hm⟩

/-- **Induction on runs**: what holds at the start and is kept by every move holds in every reachable
world. -/
theorem Reachable.rec' {P : World → Prop} (start : ∀ plans, P { plans })
    (step : ∀ w w', Reachable w → P w → Move w w' → P w') {w : World} (h : Reachable w) : P w := by
  obtain ⟨plans, h⟩ := h
  induction h with
  | refl => exact start plans
  | tail h hm ih => exact step _ _ ⟨plans, h⟩ ih hm

/-- A context with a bridge. -/
def World.hosted : World :=
  (({} : World).openContext ⟨0⟩).install ⟨0⟩ .base

theorem reachable_hosted : Reachable World.hosted :=
  ⟨{}, .tail (.single (.openContext ⟨0⟩)) (.install .base rfl)⟩

end Isthmus
