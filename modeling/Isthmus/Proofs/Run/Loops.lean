import Isthmus.Proofs.Run.Move
import Mathlib.Data.List.Forall2

/-!
# Proofs/Run/Loops — what is queued, and what keeps a loop alive

* `Reachable.housed` — every context has a loop, and it is open.
* `Reachable.queued` — an open loop delivers what was queued for it, in the order of queueing.
* `Reachable.registered` — the registrations with a loop are those of its queue, of the deliveries that
  are under way, of the promises that wait for a deferred, and of the tickets.

Most moves leave the loops alone, and then a law holds afterwards because it held before.  The others are
made of `register`, `unregister` and `post`, so each law has one lemma for each of these.
-/

namespace Isthmus

open History

namespace ContextId

/-- Contexts are told apart by their number. -/
theorem index_inj {c c' : ContextId} : c.index = c'.index ↔ c = c' := by
  cases c
  cases c'
  rw [mk.injEq]

end ContextId

/-! ## One loop changes -/

namespace World

variable {w w' : World} {cx : ContextId}

/-- Loops are looked up in their store alone. -/
theorem loopOf_congr (h : w'.loops = w.loops) (c : ContextId) : w'.loopOf c = w.loopOf c := by
  rw [loopOf, loopOf, loop?, loop?, h]

/-- A change to one loop, as it is seen there. -/
theorem loopOf_modify_self {f : Loop → Loop} (h : w'.loops = w.loops.modify cx.index f)
    (hs : (w.loop? cx).isSome) : w'.loopOf cx = f (w.loopOf cx) := by
  obtain ⟨l, hl⟩ := Option.isSome_iff_exists.1 hs
  have hl' : w'.loop? cx = some (f l) := by
    rw [loop?] at hl
    rw [loop?, h, Store.get?_modify, if_pos rfl, hl]
    rfl
  rw [loopOf, loopOf, hl, hl']
  rfl

/-- It is not seen in the others. -/
theorem loopOf_modify_of_ne {f : Loop → Loop} (h : w'.loops = w.loops.modify cx.index f)
    {c : ContextId} (hc : c ≠ cx) : w'.loopOf c = w.loopOf c := by
  rw [loopOf, loopOf, loop?, h, Store.get?_modify, if_neg (fun h => hc (ContextId.index_inj.1 h))]
  rfl

/-- A part of a loop that the change leaves alone. -/
theorem loopOf_modify_part {β : Type} {f : Loop → Loop} (g : Loop → β)
    (h : w'.loops = w.loops.modify cx.index f) (hg : ∀ l, g (f l) = g l) (c : ContextId) :
    g (w'.loopOf c) = g (w.loopOf c) := by
  by_cases hc : c = cx
  · subst hc
    by_cases hs : (w.loop? c).isSome
    · rw [loopOf_modify_self h hs, hg]
    · have hl : w.loops.get? c.index = none := Option.not_isSome_iff_eq_none.1 hs
      rw [Store.modify_of_get?_none f hl] at h
      rw [loopOf_congr h]
  · rw [loopOf_modify_of_ne h hc]

/-- Who has a registration has a loop. -/
theorem isSome_loop?_of_live (h : 0 < (w.loopOf cx).live) : (w.loop? cx).isSome := by
  rw [loopOf] at h
  cases hl : w.loop? cx with
  | none =>
    rw [hl] at h
    exact absurd h (Nat.lt_irrefl 0)
  | some l => rfl

/-- A loop that is open is there. -/
theorem isSome_loop?_of_isOpen (h : (w.loopOf cx).isOpen) : (w.loop? cx).isSome := by
  rw [loopOf] at h
  cases hl : w.loop? cx with
  | none =>
    rw [hl] at h
    exact absurd h Bool.false_ne_true
  | some l => rfl

/-- A loop with a queue is there. -/
theorem isSome_loop?_of_queue (h : (w.loopOf cx).queue ≠ []) : (w.loop? cx).isSome := by
  rw [loopOf] at h
  cases hl : w.loop? cx with
  | none =>
    rw [hl] at h
    exact absurd rfl h
  | some l => rfl

theorem isSome_loop?_modify {f : Loop → Loop} (h : w'.loops = w.loops.modify cx.index f)
    (c : ContextId) : (w'.loop? c).isSome = (w.loop? c).isSome := by
  rw [loop?, h, Store.isSome_get?_modify]
  rfl

/-- Loops are numbered in the order in which they are made. -/
theorem lt_next_of_loop? (h : (w.loop? cx).isSome) : cx.index < w.loops.next :=
  let ⟨_, h⟩ := Option.isSome_iff_exists.1 h
  Store.lt_next_of_get? h

theorem register_loops (w : World) (cx : ContextId) :
    (w.register cx).loops = w.loops.modify cx.index fun l => { l with live := l.live + 1 } := rfl

theorem unregister_loops (w : World) (cx : ContextId) :
    (w.unregister cx).loops = w.loops.modify cx.index fun l => { l with live := l.live - 1 } := rfl

/-- An open loop queues what is posted, at the end. -/
theorem post_loops_of_isOpen (wake : Wake) (h : (w.loopOf cx).isOpen) :
    (w.post cx wake).1.loops =
      w.loops.modify cx.index fun l => { l with queue := l.queue ++ [wake] } := by
  rw [post, if_pos h]

/-- A closed loop only lets the registration go. -/
theorem post_of_closed (wake : Wake) (h : ¬ (w.loopOf cx).isOpen) :
    (w.post cx wake).1 = w.unregister cx := by
  rw [post, if_neg h]

@[simp] theorem register_queue (w : World) (cx c : ContextId) :
    ((w.register cx).loopOf c).queue = (w.loopOf c).queue :=
  loopOf_modify_part Loop.queue (register_loops w cx) (fun _ => rfl) c

@[simp] theorem register_isOpen (w : World) (cx c : ContextId) :
    ((w.register cx).loopOf c).isOpen = (w.loopOf c).isOpen :=
  loopOf_modify_part Loop.isOpen (register_loops w cx) (fun _ => rfl) c

@[simp] theorem unregister_queue (w : World) (cx c : ContextId) :
    ((w.unregister cx).loopOf c).queue = (w.loopOf c).queue :=
  loopOf_modify_part Loop.queue (unregister_loops w cx) (fun _ => rfl) c

@[simp] theorem unregister_isOpen (w : World) (cx c : ContextId) :
    ((w.unregister cx).loopOf c).isOpen = (w.loopOf c).isOpen :=
  loopOf_modify_part Loop.isOpen (unregister_loops w cx) (fun _ => rfl) c

@[simp] theorem post_isOpen (w : World) (cx : ContextId) (wake : Wake) (c : ContextId) :
    ((w.post cx wake).1.loopOf c).isOpen = (w.loopOf c).isOpen := by
  by_cases h : (w.loopOf cx).isOpen
  · exact loopOf_modify_part Loop.isOpen (post_loops_of_isOpen wake h) (fun _ => rfl) c
  · rw [post_of_closed wake h, unregister_isOpen]

end World

/-! ## Moves beside the loops -/

/-- Nothing changes that the laws about loops speak of. -/
structure Aside (w w' : World) : Prop where
  contexts_next : w'.contexts.next = w.contexts.next
  contexts : ∀ cx, (w'.context? cx).isSome = (w.context? cx).isSome
  loops : w'.loops = w.loops
  delivering : w'.delivering = w.delivering
  errands : w'.errands = w.errands
  aimed : ∀ cx, aimed cx w'.history = aimed cx w.history
  sent : ∀ cx, sent cx w'.history = sent cx w.history
  taken : ∀ cx, taken cx w'.history = taken cx w.history
  heard : ∀ cx, heard cx w'.history = heard cx w.history
  underway : underway w'.history = underway w.history
  oneByOne : ∀ cx, OneByOne cx w'.history = OneByOne cx w.history
  inFlight : ∀ t, inFlight t w'.history = inFlight t w.history

/-- What the laws about loops speak of, apart from the contexts. -/
def World.loopFrame (w : World) :=
  (w.loops, w.delivering, w.errands, fun cx => aimed cx w.history, fun cx => sent cx w.history,
    fun cx => taken cx w.history, fun cx => heard cx w.history, underway w.history,
    fun cx => OneByOne cx w.history, fun t => inFlight t w.history)

namespace Aside

/-- What leaves the loops and their surroundings alone, and every context where it is, is beside the loops.
-/
theorem of_contexts {w w' : World} (hn : w'.contexts.next = w.contexts.next)
    (hc : ∀ cx, (w'.context? cx).isSome = (w.context? cx).isSome)
    (hf : w'.loopFrame = w.loopFrame) : Aside w w' := by
  simp only [World.loopFrame, Prod.mk.injEq] at hf
  obtain ⟨hl, hd, he, ha, hs, ht, hh, hu, ho, hi⟩ := hf
  exact ⟨hn, hc, hl, hd, he, congrFun ha, congrFun hs, congrFun ht, congrFun hh, hu, congrFun ho,
    congrFun hi⟩

/-- Who leaves even the contexts alone is beside the loops. -/
theorem of_eq {w w' : World} (hc : w'.contexts = w.contexts) (hf : w'.loopFrame = w.loopFrame) :
    Aside w w' :=
  .of_contexts (by rw [hc]) (fun cx => by rw [World.context?, World.context?, hc]) hf

theorem refl (w : World) : Aside w w := .of_eq rfl rfl

/-- A move beside the loops is not seen in any of them. -/
theorem loopOf {w w' : World} (h : Aside w w') (cx : ContextId) : w'.loopOf cx = w.loopOf cx :=
  World.loopOf_congr h.loops cx

/-- **Quiet moves are beside the loops**. -/
theorem of_quiet {w w' : World} (h : Quiet w w') : Aside w w' where
  contexts_next := h.contexts_next
  contexts cx := by
    have := congrArg Option.isSome (h.contexts cx)
    rwa [Option.isSome_map, Option.isSome_map] at this
  loops := h.loops
  delivering := h.delivering
  errands := h.errands
  aimed cx := by rw [h.history]
  sent cx := by rw [h.history]
  taken cx := by rw [h.history]
  heard cx := by rw [h.history]
  underway := by rw [h.history]
  oneByOne cx := by rw [h.history]
  inFlight t := by rw [h.history]

/-- Moves beside the loops follow each other beside the loops. -/
theorem trans {a b c : World} (h : Aside a b) (h' : Aside b c) : Aside a c where
  contexts_next := h'.contexts_next.trans h.contexts_next
  contexts cx := (h'.contexts cx).trans (h.contexts cx)
  loops := h'.loops.trans h.loops
  delivering := h'.delivering.trans h.delivering
  errands := h'.errands.trans h.errands
  aimed cx := (h'.aimed cx).trans (h.aimed cx)
  sent cx := (h'.sent cx).trans (h.sent cx)
  taken cx := (h'.taken cx).trans (h.taken cx)
  heard cx := (h'.heard cx).trans (h.heard cx)
  underway := h'.underway.trans h.underway
  oneByOne cx := (h'.oneByOne cx).trans (h.oneByOne cx)
  inFlight t := (h'.inFlight t).trans (h.inFlight t)

/-- Forgetting callbacks is beside the loops. -/
theorem prune (w : World) (id : InstallationId) : Aside w (w.prune id).1 := by
  rw [World.prune]
  split
  · exact refl w
  · exact .of_eq rfl rfl

theorem keepCallback (w : World) (home : InstallationId) (slot : Nat) (f : ForeignValue) :
    Aside w (w.keepCallback home slot f) := .of_eq rfl rfl

theorem switch (w : World) (id : ChannelsId) (place : Nat) (home owner : InstallationId)
    (token : Option Token) : Aside w (w.switch id place home owner token) := .of_eq rfl rfl

theorem disconnect (w : World) (id : ChannelsId) (c : Channels) : Aside w (w.disconnect id c) :=
  .of_eq rfl rfl

/-- So is setting a subscriber, with all that it forgets. -/
theorem setSubscriber (w : World) (id : ChannelsId) (place : Nat) (home : InstallationId)
    (slot : Nat) (callback : Option ForeignValue) :
    Aside w (w.setSubscriber id place home slot callback).1 := by
  unfold World.setSubscriber
  split
  · exact refl w
  · exact (switch w ..).trans (prune _ home)
  · exact ((keepCallback w ..).trans (switch _ ..)).trans (prune _ home)

theorem install (w : World) (cx : ContextId) (registry : Registry) :
    Aside w (w.install cx registry) :=
  .of_contexts rfl (fun c => Store.isSome_get?_modify w.contexts cx.index c.index _) rfl

theorem unbind (w : World) (cx : ContextId) (text : Option String) : Aside w (w.unbind cx text) :=
  .of_contexts rfl (fun c => Store.isSome_get?_modify w.contexts cx.index c.index _) rfl

theorem openScope (w : World) (cx : ContextId) : Aside w (w.openScope cx) :=
  .of_contexts rfl (fun c => Store.isSome_get?_modify w.contexts cx.index c.index _) rfl

theorem closeScope (w : World) (cx : ContextId) : Aside w (w.closeScope cx) :=
  .of_contexts rfl (fun c => Store.isSome_get?_modify w.contexts cx.index c.index _) rfl

end Aside

/-! ## Operations as they concern the loops -/

namespace World

variable {w w' : World} {cx : ContextId}

/-- Forgetting callbacks destroys no deferred. -/
theorem prune_deferreds (w : World) (id : InstallationId) :
    (w.prune id).1.deferreds = w.deferreds := by
  rw [prune]
  split
  · rfl
  · rfl

/-- It takes nothing from the host. -/
theorem prune_roots (w : World) (id : InstallationId) : (w.prune id).1.roots = w.roots := by
  rw [prune]
  split
  · rfl
  · rfl

/-- A context with a bridge is there. -/
theorem isSome_context?_of_bridge? {b} (h : w.bridge? cx = some b) : (w.context? cx).isSome := by
  rw [bridge?] at h
  cases hc : w.context? cx with
  | none =>
    rw [hc] at h
    cases h
  | some c => rfl

/-- **What completing a deferred comes to**: its continuation, if there is one, is sent to its loop. -/
theorem complete_cases {id status v w' more} (h : w.complete id status v = some (w', more)) :
    ∃ d, w.deferred? id = some d ∧ d.status = .pending ∧ status ≠ .pending ∧
      w' = match d.continuation with
        | some k => ((w.fulfil id { status, value := v } status v).launch [] w.errands k.context
            (.settle k.slot status v)).1
        | none => w.fulfil id { status, value := v } status v := by
  rw [complete] at h
  cases hd : w.deferred? id with
  | none => rw [hd] at h; cases h
  | some d =>
    rw [hd] at h
    by_cases hs : d.status = .pending ∧ status ≠ .pending
    · refine ⟨d, rfl, hs.1, hs.2, ?_⟩
      simp only [Option.bind_eq_bind, Option.bind_some, Deferred.complete, if_pos hs,
        Option.pure_def, Option.some.injEq] at h
      cases hk : d.continuation with
      | none => rw [hk] at h; exact (congrArg Prod.fst h).symm
      | some k => rw [hk] at h; exact (congrArg Prod.fst h).symm
    · simp only [Option.bind_eq_bind, Option.bind_some, Deferred.complete, if_neg hs,
        Option.bind_none, reduceCtorEq] at h

/-- A completion gives a pending deferred its outcome, and has an errand for what waits for it. -/
theorem determine_cases {id status v} (h : w.determine id status v = some w') :
    ∃ d, w.deferred? id = some d ∧ d.status = .pending ∧ status ≠ .pending ∧
      w' = { w.fulfil id { status, value := v } status v with
        errands := errandsOf status v d.continuation ++ w.errands } := by
  rw [determine] at h
  cases hd : w.deferred? id with
  | none => rw [hd] at h; cases h
  | some d =>
    rw [hd] at h
    by_cases hs : d.status = .pending ∧ status ≠ .pending
    · refine ⟨d, rfl, hs.1, hs.2, ?_⟩
      simp only [Option.bind_eq_bind, Option.bind_some, Deferred.complete, if_pos hs,
        Option.pure_def, Option.some.injEq] at h
      exact h.symm
    · simp only [Option.bind_eq_bind, Option.bind_some, Deferred.complete, if_neg hs,
        Option.bind_none, reduceCtorEq] at h

/-- The deferred has a new continuation. -/
def waitFor (w : World) (id : DeferredId) (d : Deferred Settlement) (k : Settlement) : World :=
  { w with deferreds := w.deferreds.modify id.index fun _ => { d with continuation := some k } }

/-- **What it comes to that a promise waits for a deferred**: it waits, it takes the place of another one,
or its wake is sent at once. -/
theorem await_cases {id d} (hd : w.deferred? id = some d) (k : Settlement) :
    (d.status = .pending ∧ d.continuation = none ∧
        (w.await id d k).1 = (w.waitFor id d k).register k.context) ∨
      (d.status = .pending ∧ ∃ old, d.continuation = some old ∧
        (w.await id d k).1 = ((w.waitFor id d k).register k.context).unregister old.context) ∨
      (d.status ≠ .pending ∧
        (w.await id d k).1 = (w.send k.context (.settle k.slot d.status d.value)).1) := by
  obtain ⟨status, value, continuation⟩ := d
  cases status with
  | pending =>
    cases continuation with
    | none => exact .inl ⟨rfl, rfl, rfl⟩
    | some old => exact .inr (.inl ⟨rfl, old, rfl, rfl⟩)
  | resolved =>
    refine .inr (.inr ⟨nofun, ?_⟩)
    simp only [await, Deferred.attach, Store.modify_self hd]
  | rejected =>
    refine .inr (.inr ⟨nofun, ?_⟩)
    simp only [await, Deferred.attach, Store.modify_self hd]

/-- Only loops, errands and tickets change, and at most one wake is queued or dropped. -/
inductive Posts (w : World) : World → Prop where
  | silent (loops : Store Loop) (errands : List Errand) (tickets : Names ContextId) :
      Posts w { w with loops, errands, roots.tickets := tickets }
  | aimed (errands : List Errand) (cx : ContextId) (token : Token) (args : List NativeValue) :
      Posts w { w with errands, history := .aimed cx token args :: w.history }
  | queued (loops : Store Loop) (errands : List Errand) (tickets : Names ContextId) (cx : ContextId)
      (wake : Wake) :
      Posts w { w with
        loops, errands, roots.tickets := tickets, history := .sent cx wake :: w.history }
  | dropped (loops : Store Loop) (errands : List Errand) (cx : ContextId) (wake : Wake) :
      Posts w { w with loops, errands, history := .dropped cx wake :: w.history }

namespace Posts

theorem refl (w : World) : Posts w w :=
  .silent w.loops w.errands w.roots.tickets

/-- Queueing a wake is a post. -/
theorem post (w : World) (cx : ContextId) (wake : Wake) : Posts w (w.post cx wake).1 := by
  rw [World.post]
  split
  · exact .queued _ w.errands _ _ _
  · exact .silent _ w.errands _

/-- Sending, which registers first, is one as well. -/
theorem send (w : World) (cx : ContextId) (wake : Wake) : Posts w (w.send cx wake).1 := by
  rw [World.send, World.post]
  split
  · exact .queued _ w.errands _ _ _
  · exact .silent _ w.errands _

/-- A firing that takes its subscriber posts nothing yet. -/
theorem aim (w : World) (cx : ContextId) (token : Token) (args : List NativeValue) :
    Posts w (w.aim cx token args) :=
  .aimed _ cx token args

/-- Registering for a firing is a post. -/
theorem arm (w : World) (before after : List Errand) (cx : ContextId) (wake : Wake) :
    Posts w (w.arm before after cx wake) :=
  .silent _ _ w.roots.tickets

/-- So is queueing what an errand is about. -/
theorem launch (w : World) (before after : List Errand) (cx : ContextId) (wake : Wake) :
    Posts w (w.launch before after cx wake).1 := by
  rw [World.launch]
  split
  · rw [World.post]
    split
    · exact .queued _ _ w.roots.tickets cx wake
    · exact .silent _ _ w.roots.tickets
  · exact .dropped _ _ cx wake

/-- To make a ticket is to register. -/
theorem newTicket (w : World) (name : String) (cx : ContextId) : Posts w (w.newTicket name cx) := by
  unfold World.newTicket
  split
  · exact .silent _ w.errands _
  · exact .silent _ w.errands _

/-- To send it is to queue its wake. -/
theorem sendTicket (w : World) (name : String) (cx : ContextId) (label : String)
    (body : List Script.Step) : Posts w (w.sendTicket name cx label body).1 := by
  rw [World.sendTicket, World.post]
  split
  · exact .queued _ w.errands _ _ _
  · exact .silent _ w.errands _

/-- To drop it is to let its registration go. -/
theorem dropTicket (w : World) (name : String) (cx : ContextId) : Posts w (w.dropTicket name cx) :=
  .silent _ w.errands _

end Posts

/-- A firing without interruption is made of steps each of which queues at most one wake. -/
theorem fire_of_posts {R : World → World → Prop} [IsPreorder World R]
    (h : ∀ {w w'}, Posts w w' → R w w') (w : World) (id : ChannelsId) (event : Nat)
    (args : List NativeValue) : R w (w.fire id event args).1 := by
  rw [fire]
  split
  · exact trans_of R (trans_of R (h (.aim ..)) (h (.arm ..))) (h (.launch ..))
  · exact refl_of R w

/-- Completing a deferred gives it its outcome and queues at most one wake. -/
theorem complete_posts {id status v w' more} (h : w.complete id status v = some (w', more)) :
    ∃ d, w.deferred? id = some d ∧ d.status = .pending ∧ status ≠ .pending ∧
      Posts (w.fulfil id { status, value := v } status v) w' := by
  obtain ⟨d, hd, hp, hs, rfl⟩ := complete_cases h
  refine ⟨d, hd, hp, hs, ?_⟩
  split
  · exact .launch ..
  · exact .refl _

/-- A completion gives a deferred its outcome and begins an errand at most. -/
theorem determine_posts {id status v} (h : w.determine id status v = some w') :
    ∃ d, w.deferred? id = some d ∧ d.status = .pending ∧ status ≠ .pending ∧
      Posts (w.fulfil id { status, value := v } status v) w' := by
  obtain ⟨d, hd, hp, hs, rfl⟩ := determine_cases h
  exact ⟨d, hd, hp, hs, .silent _ _ w.roots.tickets⟩

/-- Promising a pending deferred makes it wait for the new promise, and promising a complete one does
not change it. -/
theorem promise_posts (w : World) (cx : ContextId) (home : InstallationId) (slot : Nat) {id d}
    (hd : w.deferred? id = some d) :
    (d.status = .pending ∧
        Posts ((w.park cx home slot id).waitFor id d ⟨cx, slot⟩) (w.promise cx home slot id d).1) ∨
      (d.status ≠ .pending ∧ Posts (w.park cx home slot id) (w.promise cx home slot id d).1) := by
  rw [promise]
  obtain ⟨hs, -, h⟩ | ⟨hs, old, -, h⟩ | ⟨hs, h⟩ :=
    await_cases (w := w.park cx home slot id) hd ⟨cx, slot⟩
  · rw [h]
    exact .inl ⟨hs, .silent _ w.errands _⟩
  · rw [h]
    exact .inl ⟨hs, .silent _ w.errands _⟩
  · rw [h]
    exact .inr ⟨hs, .send _ _ _⟩

/-- What a delivery begins with. -/
inductive Begins (w : World) (cx : ContextId) : Wake → World → Prop where
  | other {wake} (h : ∀ slot status v, wake ≠ .settle slot status v) : Begins w cx wake w
  | unbridged {slot status v} (h : w.bridge? cx = none) : Begins w cx (.settle slot status v) w
  | missed {slot status v home i} (hb : w.bridge? cx = some (home, i))
      (hp : w.parked? home slot = none) :
      Begins w cx (.settle slot status v) { w with history := .missed ⟨cx, slot⟩ :: w.history }
  | unparked {slot status v home i promise} (hb : w.bridge? cx = some (home, i))
      (hp : w.parked? home slot = some promise) :
      Begins w cx (.settle slot status v) (w.vacate cx home slot promise)

/-- What the beginning of a delivery does beside its note: a settlement leaves its slot. -/
theorem begins (w : World) (cx : ContextId) (wake : Wake) : Begins w cx wake (w.begin cx wake) := by
  cases wake with
  | settle slot status v =>
    rw [World.begin]
    split
    · next home i hb =>
      rw [unpark]
      split
      · exact .missed hb ‹_›
      · exact .unparked hb ‹_›
    · exact .unbridged ‹_›
  | event token args => exact .other (by simp)
  | script label body => exact .other (by simp)

/-- What destroying a thing makes of the world. -/
inductive Destroys (w : World) : Ref → World → Prop where
  /-- The thing was not there. -/
  | gone {r} : Destroys w r w
  | object {id} : Destroys w (.object id) { w with objects := w.objects.erase id.index }
  | handle {id} : Destroys w (.handle id) { w with handles := w.handles.erase id.index }
  | inst {id} : Destroys w (.inst id) { w with instances := w.instances.erase id.index }
  | source {id} : Destroys w (.source id) { w with sources := w.sources.erase id.index }
  | storage {id} : Destroys w (.storage id) { w with storages := w.storages.erase id }
  | installation {id} :
      Destroys w (.installation id) { w with installations := w.installations.erase id.index }
  | channels {id c} (hc : w.channels? id = some c) :
      Destroys w (.channels id) ((w.disconnect id c).prune c.installation).1
  | deferred {id d} (hd : w.deferred? id = some d) (ha : d.abandoned = none) :
      Destroys w (.deferred id) { w with deferreds := w.deferreds.erase id.index }
  | abandoned {id d k} (hd : w.deferred? id = some d) (ha : d.abandoned = some k) :
      Destroys w (.deferred id)
        ((w.expire id).post k.context (.settle k.slot .rejected Deferred.droppedReason)).1

/-- What destruction does, for each kind of thing. -/
theorem destroys (w : World) (r : Ref) : Destroys w r (w.destroy r).1 := by
  cases r with
  | deferred id =>
    rw [destroy]
    split
    · exact .gone
    · next d hd =>
      split
      · exact .abandoned hd ‹_›
      · exact .deferred hd ‹_›
  | channels id =>
    rw [destroy]
    split
    · exact .gone
    · exact .channels ‹_›
  | object id =>
    rw [destroy]
    split
    · exact .gone
    · exact .object
  | handle id =>
    rw [destroy]
    split
    · exact .gone
    · exact .handle
  | inst id =>
    rw [destroy]
    split
    · exact .gone
    · exact .inst
  | source id =>
    rw [destroy]
    split
    · exact .source
    · exact .gone
  | storage id =>
    rw [destroy]
    split
    · exact .gone
    · exact .storage
  | installation id =>
    rw [destroy]
    split
    · exact .gone
    · exact .installation

/-- A new context has an empty loop. -/
theorem loopOf_openContext (w : World) (global : ObjectId) (c : ContextId) :
    (w.openContext global).loopOf c = if c.index = w.loops.next then {} else w.loopOf c := by
  rw [loopOf, loop?]
  simp only [openContext, Store.get?_insert]
  split
  · rfl
  · rfl

/-- The loop of a context that ends is closed and emptied, and each wake gives its registration up. -/
theorem closeContext_loops (w : World) (cx : ContextId) :
    (w.closeContext cx).1.loops = w.loops.modify cx.index fun l => { l with
      queue := []
      live := l.live - (w.loopOf cx).queue.length
      isOpen := false } := rfl

/-- The context is gone, and the others are there. -/
theorem context?_closeContext (w : World) (cx c : ContextId) :
    (w.closeContext cx).1.context? c = if c = cx then none else w.context? c := by
  simp only [context?, closeContext, Store.get?_erase, ContextId.index_inj]

/-- What is taken was the first of the queue. -/
theorem pop_loops (w : World) (cx : ContextId) (wake : Wake) (rest : List Wake) :
    (w.pop cx wake rest).loops = w.loops.modify cx.index ({ · with queue := rest }) := rfl

/-- A delivery begins where something is queued, with the first of it. -/
theorem take_cases {wake} (h : w.take cx = some (wake, w')) :
    ∃ rest, (w.loopOf cx).queue = wake :: rest ∧ w' = w.pop cx wake rest := by
  rw [take] at h
  split at h
  · cases h
  · next first rest hq =>
    simp only [Option.some.injEq, Prod.mk.injEq] at h
    obtain ⟨rfl, rfl⟩ := h
    exact ⟨rest, hq, rfl⟩

end World

/-- What a delivery does at its beginning, beside taking its wake, is beside the loops. -/
theorem Aside.begins {w w' : World} {cx wake} (h : World.Begins w cx wake w') : Aside w w' := by
  cases h with
  | _ => exact .of_eq rfl rfl

/-! ## Errands -/

/-- The event that an errand is to queue, and the context that it is for. -/
def Errand.event? : Errand → Option (ContextId × Token × List NativeValue)
  | .aimed cx t args => some (cx, t, args)
  | .armed cx wake => wake.event?.map fun event => (cx, event)

/-- The events that firings have begun to queue. -/
def World.begun (w : World) : List (ContextId × Token × List NativeValue) :=
  w.errands.filterMap Errand.event?

/-- Completing a deferred adds no event to the errands. -/
theorem World.filterMap_errandsOf (status : DeferredStatus) (v : NativeValue)
    (continuation : Option Settlement) (es : List Errand) :
    (errandsOf status v continuation ++ es).filterMap Errand.event? =
      es.filterMap Errand.event? := by
  cases continuation with
  | none => rfl
  | some k => rfl

/-- At the end of an errand an open loop queues the wake. -/
theorem World.launch_of_isOpen {w : World} {cx : ContextId} (h : (w.loopOf cx).isOpen)
    (before after : List Errand) (wake : Wake) : (w.launch before after cx wake).1 =
      ({ w with errands := before ++ after }.post cx wake).1 := by
  rw [launch, if_pos h]

/-- A closed one lets the registration go. -/
theorem World.launch_of_closed {w : World} {cx : ContextId} (h : ¬ (w.loopOf cx).isOpen)
    (before after : List Errand) (wake : Wake) : (w.launch before after cx wake).1 =
      World.unregister { w with
        errands := before ++ after
        history := .dropped cx wake :: w.history } cx := by
  rw [launch, if_neg h]

/-- A firing that nothing interrupts is a sequence of moves. -/
theorem Moves.fire (w : World) (id : ChannelsId) (event : Nat) (args : List NativeValue) :
    Moves w (w.fire id event args).1 := by
  rw [World.fire]
  split
  · next cx token h =>
    have haim : Move w (w.aim cx token args) := .aim args h
    have harm : Move (w.aim cx token args)
      ((w.aim cx token args).arm [] w.errands cx (.event token args)) := .arm rfl
    exact ((Relation.ReflTransGen.single haim).tail harm).tail (.launch rfl)
  · exact .refl

/-- A completion that nothing interrupts is a sequence of moves. -/
theorem Moves.complete {w w' : World} {id status v more}
    (h : w.complete id status v = some (w', more)) : Moves w w' := by
  obtain ⟨d, hd, hp, hs, rfl⟩ := World.complete_cases h
  have hdetermine : w.determine id status v = some
      { w.fulfil id { status, value := v } status v with
        errands := World.errandsOf status v d.continuation ++ w.errands } := by
    simp only [World.determine, hd, Option.bind_eq_bind, Option.bind_some, Deferred.complete,
      if_pos (And.intro hp hs), Option.pure_def]
  cases hk : d.continuation with
  | none =>
    rw [hk] at hdetermine
    exact .single (.determine hdetermine)
  | some k =>
    rw [hk] at hdetermine
    refine .tail (.single (.determine hdetermine)) ?_
    have hfirst : Errand.armed k.context (.settle k.slot status v) :: w.errands =
      [] ++ .armed k.context (.settle k.slot status v) :: w.errands := rfl
    exact .launch hfirst

/-! ## Laws about loops -/

/-- A law that registering, giving a registration up and queueing do not break. -/
structure LoopLaw (L : World → Prop) : Prop where
  aside {w w'} : Aside w w' → L w → L w'
  register {w} (cx) : L w → L (w.register cx)
  unregister {w} (cx) : L w → L (w.unregister cx)
  post {w} (cx) {wake} : wake.event? = none → L w → L (w.post cx wake).1
  errands {w} {es} : es.filterMap Errand.event? = w.begun → L w → L { w with errands := es }
  aim {w} (cx token args) : L w → L (w.aim cx token args)
  launch {w before after cx wake} : w.errands = before ++ .armed cx wake :: after → L w →
    L (w.launch before after cx wake).1

/-- Only errands change, and a firing or a wake that is dropped is noted. -/
inductive World.Bustles (w : World) : World → Prop where
  | errands (errands : List Errand) : Bustles w { w with errands }
  | aimed (errands : List Errand) (cx : ContextId) (token : Token) (args : List NativeValue) :
      Bustles w { w with errands, history := .aimed cx token args :: w.history }
  | dropped (errands : List Errand) (cx : ContextId) (wake : Wake) :
      Bustles w { w with errands, history := .dropped cx wake :: w.history }

/-- A law that has nothing to do with errands. -/
structure PostLaw (L : World → Prop) : Prop where
  aside {w w'} : Aside w w' → L w → L w'
  register {w} (cx) : L w → L (w.register cx)
  unregister {w} (cx) : L w → L (w.unregister cx)
  post {w} (cx wake) : L w → L (w.post cx wake).1
  bustles {w w'} : World.Bustles w w' → L w → L w'

/-- A law that each step of registering and queueing keeps is a law about loops. -/
theorem PostLaw.loopLaw {L : World → Prop} (h : PostLaw L) : LoopLaw L where
  aside := h.aside
  register := h.register
  unregister := h.unregister
  post cx _ _ := h.post cx _
  errands _ := h.bustles (.errands _)
  aim _ _ _ := h.bustles (.aimed _ _ _ _)
  launch {w before after cx wake} _ hw := by
    by_cases ho : (w.loopOf cx).isOpen
    · rw [World.launch_of_isOpen ho]
      exact h.post cx wake (h.bustles (.errands _) hw)
    · rw [World.launch_of_closed ho]
      exact h.unregister cx (h.bustles (.dropped _ _ _) hw)

namespace LoopLaw

/-- A law about loops speaks of contexts and loops alone. -/
theorem frame {L : World → Prop} {w w' : World} (hL : LoopLaw L) (hw : L w)
    (hc : w'.contexts = w.contexts) (hf : w'.loopFrame = w.loopFrame) : L w' :=
  hL.aside (.of_eq hc hf) hw

variable {L : World → Prop} {w w' : World}

/-- A law about loops is kept when a deferred is completed. -/
theorem determine (hL : LoopLaw L) (hw : L w) {id status v}
    (h : w.determine id status v = some w') : L w' := by
  obtain ⟨d, -, -, -, rfl⟩ := World.determine_cases h
  have hf : L (w.fulfil id { status, value := v } status v) := hL.frame hw rfl rfl
  exact hL.errands (World.filterMap_errandsOf ..) hf

/-- It is kept when a firing registers. -/
theorem arm (hL : LoopLaw L) (hw : L w) {before after : List Errand} {cx : ContextId} {token args}
    (h : w.errands = before ++ .aimed cx token args :: after) :
    L (w.arm before after cx (.event token args)) := by
  refine hL.register cx (hL.errands ?_ hw)
  rw [World.begun, h, List.filterMap_append, List.filterMap_append]
  rfl

/-- It is kept when a deferred is converted. -/
theorem promise (hL : LoopLaw L) (hw : L w) (cx : ContextId) (home : InstallationId) (slot : Nat)
    {id d} (hd : w.deferred? id = some d) : L (w.promise cx home slot id d).1 := by
  have hp : L (w.park cx home slot id) := hL.frame hw rfl rfl
  have hf : L ((w.park cx home slot id).waitFor id d ⟨cx, slot⟩) := hL.frame hp rfl rfl
  obtain ⟨-, -, h⟩ | ⟨-, old, -, h⟩ | ⟨-, h⟩ :=
    World.await_cases (w := w.park cx home slot id) hd ⟨cx, slot⟩
  · rw [World.promise, h]
    exact hL.register _ hf
  · rw [World.promise, h]
    exact hL.unregister _ (hL.register _ hf)
  · rw [World.promise, h]
    exact hL.post _ rfl (hL.register _ hp)

/-- It is kept when something is destroyed. -/
theorem destroy (hL : LoopLaw L) (hw : L w) {r} (h : World.Destroys w r w') : L w' := by
  cases h with
  | gone => exact hw
  | channels hc => exact hL.aside ((Aside.disconnect w ..).trans (.prune _ _)) hw
  | abandoned hd ha => exact hL.post _ rfl (hL.frame hw rfl rfl)
  | _ => exact hL.frame hw rfl rfl

/-- It is kept when the host makes a ticket. -/
theorem newTicket (hL : LoopLaw L) (hw : L w) (name : String) (cx : ContextId) :
    L (w.newTicket name cx) := by
  have hr : L ({ w with roots.tickets := w.roots.tickets.put name cx }.register cx) :=
    hL.register cx (hL.frame hw rfl rfl)
  unfold World.newTicket
  split
  · exact hL.unregister _ hr
  · exact hr

/-- **Laws about loops**: what is left to show is that contexts come and go, and that deliveries begin
and end, without breaking the law. -/
theorem move (hL : LoopLaw L) (hw : L w) (hm : Move w w')
    (openContext : ∀ global, L (w.openContext global)) (closeContext : ∀ cx, L (w.closeContext cx).1)
    (take : ∀ cx wake w₁, w.take cx = some (wake, w₁) → L w₁)
    (hear : ∀ cx token args verdict, w.undecided = some (cx, token, args) →
      L (w.hear cx token args verdict))
    (finish : ∀ cx wake rest broke, w.delivering = (cx, wake) :: rest → w.undecided = none →
      L (w.finish cx wake broke)) : L w' := by
  cases hm with
  | quiet h => exact hL.aside (.of_quiet h) hw
  | destroy r _ => exact hL.destroy hw (w.destroys r)
  | openContext global => exact openContext global
  | closeContext cx => exact closeContext cx
  | determine h => exact hL.determine hw h
  | promise hb hd => exact hL.promise hw _ _ _ hd
  | setSubscriber id place callback hb => exact hL.aside (.setSubscriber w ..) hw
  | aim args h => exact hL.aim _ _ _ hw
  | arm h => exact hL.arm hw h
  | launch h => exact hL.launch h hw
  | take h => exact hL.aside (.begins (World.begins ..)) (take _ _ _ h)
  | hear hu h => exact hear _ _ _ _ hu
  | finish hd hu hs => exact finish _ _ _ _ hd hu
  | newTicket name h => exact hL.newTicket hw name _
  | sendTicket h label body => exact hL.post _ rfl (hL.frame hw rfl rfl)
  | dropTicket h => exact hL.unregister _ (hL.frame hw rfl rfl)
  | install registry h => exact hL.aside (.install w _ _) hw
  | unbind cx text => exact hL.aside (.unbind w ..) hw
  | openScope h => exact hL.aside (.openScope w _) hw
  | closeScope h => exact hL.aside (.closeScope w _) hw
  | keepClass | newDeferred | connect | settle | settleOwn => exact hL.frame hw rfl rfl

/-- A law that holds at the start, too. -/
theorem reachable (hL : LoopLaw L) (start : ∀ plans, L { plans })
    (openContext : ∀ w global, Reachable w → L w → L (w.openContext global))
    (closeContext : ∀ w cx, L w → L (w.closeContext cx).1)
    (take : ∀ w cx wake w', w.take cx = some (wake, w') → L w → L w')
    (hear : ∀ w cx token args verdict, w.undecided = some (cx, token, args) → L w →
      L (w.hear cx token args verdict))
    (finish : ∀ w cx wake rest broke, w.delivering = (cx, wake) :: rest → w.undecided = none →
      L w → L (w.finish cx wake broke))
    (h : Reachable w) : L w :=
  h.rec' start fun w _ hr hw hm => hL.move hw hm (fun global => openContext w global hr hw)
    (fun cx => closeContext w cx hw) (fun _ _ _ ht => take w _ _ _ ht hw)
    (fun _ _ _ _ hu => hear w _ _ _ _ hu hw) fun _ _ _ _ hd hu => finish w _ _ _ _ hd hu hw

end LoopLaw

/-! ## Contexts have loops -/

/-- Contexts and loops are created together, and a loop is open as long as its context is there. -/
structure Housed (w : World) : Prop where
  next_eq : w.contexts.next = w.loops.next
  isOpen : ∀ cx, (w.context? cx).isSome → (w.loopOf cx).isOpen

/-- Registering and queueing keep it that contexts have open loops. -/
theorem Housed.postLaw : PostLaw Housed where
  aside {w w'} h hw := by
    refine ⟨by rw [h.contexts_next, h.loops, hw.next_eq], fun c hc => ?_⟩
    rw [h.contexts] at hc
    rw [h.loopOf]
    exact hw.isOpen c hc
  register {w} cx hw := ⟨hw.next_eq, fun c hc => (w.register_isOpen cx c).trans (hw.isOpen c hc)⟩
  unregister {w} cx hw :=
    ⟨hw.next_eq, fun c hc => (w.unregister_isOpen cx c).trans (hw.isOpen c hc)⟩
  post {w} cx wake hw := by
    refine ⟨?_, fun c hc => (w.post_isOpen cx wake c).trans (hw.isOpen c ?_)⟩
    · rw [World.post]
      split
      · exact hw.next_eq
      · exact hw.next_eq
    · rw [World.post] at hc
      split at hc
      · exact hc
      · exact hc
  bustles h hw := by
    cases h with
    | _ => exact ⟨hw.next_eq, hw.isOpen⟩

/-- **Every context has an open loop.** -/
theorem Reachable.housed {w : World} (h : Reachable w) : Housed w := by
  refine Housed.postLaw.loopLaw.reachable (fun plans => ⟨rfl, fun cx hc => by cases hc⟩)
    (fun w global _ hw => ⟨congrArg (· + 1) hw.next_eq, fun c hc => ?_⟩)
    (fun w cx hw => ⟨hw.next_eq, fun c hc => ?_⟩) (fun w cx wake w' ht hw => ?_)
    (fun w cx token args verdict _ hw => ⟨hw.next_eq, hw.isOpen⟩)
    (fun w cx wake rest broke _ _ hw => ?_) h
  · rw [World.loopOf_openContext]
    split
    · rfl
    · next hn =>
      refine hw.isOpen c ?_
      rw [World.context?, World.openContext, Store.get?_insert, hw.next_eq, if_neg hn] at hc
      exact hc
  · rw [World.context?_closeContext] at hc
    split at hc
    · cases hc
    · next hn =>
      rw [World.loopOf_modify_of_ne (w.closeContext_loops cx) hn]
      exact hw.isOpen c hc
  · obtain ⟨rest, -, rfl⟩ := World.take_cases ht
    refine ⟨hw.next_eq, fun c hc => ?_⟩
    rw [World.loopOf_modify_part Loop.isOpen (w.pop_loops cx wake rest) fun _ => rfl]
    exact hw.isOpen c ((Store.isSome_get?_modify ..).symm.trans hc)
  · refine ⟨hw.next_eq, fun c hc => (World.unregister_isOpen _ cx c).trans ?_⟩
    exact hw.isOpen c ((Store.isSome_get?_modify ..).symm.trans hc)

/-- The loop of a context with a bridge is open. -/
theorem Housed.isOpen_of_bridge? {w : World} (hw : Housed w) {cx : ContextId} {b}
    (h : w.bridge? cx = some b) : (w.loopOf cx).isOpen :=
  hw.isOpen cx (World.isSome_context?_of_bridge? h)

/-! ## Loops deliver in order -/

/-- What was queued for an open loop is what was taken from it and what is still queued; a context that
is yet to come has neither. -/
structure Queued (w : World) : Prop where
  sent_eq : ∀ cx, (w.loopOf cx).isOpen →
    sent cx w.history = taken cx w.history ++ (w.loopOf cx).queue
  unborn : ∀ cx, w.loops.next ≤ cx.index → sent cx w.history = [] ∧ taken cx w.history = []

/-- Registering and queueing keep the account of what was sent and taken. -/
theorem Queued.postLaw : PostLaw Queued where
  aside {w w'} h hw := by
    refine ⟨fun c hc => ?_, fun c hc => ?_⟩
    · rw [h.loopOf] at hc ⊢
      rw [h.sent, h.taken, hw.sent_eq c hc]
    · rw [h.loops] at hc
      rw [h.sent, h.taken]
      exact hw.unborn c hc
  register {w} cx hw := by
    refine ⟨fun c hc => ?_, hw.unborn⟩
    rw [World.register_isOpen] at hc
    rw [World.register_queue]
    exact hw.sent_eq c hc
  unregister {w} cx hw := by
    refine ⟨fun c hc => ?_, hw.unborn⟩
    rw [World.unregister_isOpen] at hc
    rw [World.unregister_queue]
    exact hw.sent_eq c hc
  post {w} cx wake hw := by
    by_cases ho : (w.loopOf cx).isOpen
    · have hl := World.post_loops_of_isOpen wake ho
      have hs := World.isSome_loop?_of_isOpen ho
      have hh : (w.post cx wake).1.history = .sent cx wake :: w.history := by
        rw [World.post, if_pos ho]
      refine ⟨fun c hc => ?_, fun c hc => ?_⟩
      · rw [World.post_isOpen] at hc
        rw [hh, sent_sent]
        by_cases h : cx = c
        · subst h
          rw [if_pos rfl, World.loopOf_modify_self hl hs, hw.sent_eq cx hc, List.append_assoc]
          rfl
        · rw [if_neg h, World.loopOf_modify_of_ne hl (Ne.symm h)]
          exact hw.sent_eq c hc
      · rw [hl] at hc
        rw [hh, sent_sent, if_neg]
        · exact hw.unborn c hc
        · rintro rfl
          exact absurd (World.lt_next_of_loop? hs) (Nat.not_lt.2 hc)
    · rw [World.post_of_closed wake ho]
      refine ⟨fun c hc => ?_, hw.unborn⟩
      rw [World.unregister_isOpen] at hc
      rw [World.unregister_queue]
      exact hw.sent_eq c hc
  bustles h hw := by
    cases h with
    | _ => exact ⟨hw.sent_eq, hw.unborn⟩

/-- **An open loop delivers in the order of queueing.** -/
theorem Reachable.queued {w : World} (h : Reachable w) : Queued w := by
  refine Queued.postLaw.loopLaw.reachable (fun plans => ⟨nofun, fun cx _ => ⟨rfl, rfl⟩⟩)
    (fun w global _ hw => ⟨fun c hc => ?_, fun c hc => hw.unborn c (Nat.le_of_succ_le hc)⟩)
    (fun w cx hw => ?_) (fun w cx wake w' ht hw => ?_)
    (fun w cx token args verdict _ hw => ⟨hw.sent_eq, hw.unborn⟩)
    (fun w cx wake rest broke _ _ hw => ⟨fun c hc => ?_, hw.unborn⟩) h
  · rw [World.loopOf_openContext] at hc ⊢
    split at hc
    · next hn =>
      obtain ⟨hs, ht⟩ := hw.unborn c (Nat.le_of_eq hn.symm)
      change sent c w.history = taken c w.history ++ _
      rw [if_pos hn, hs, ht]
      rfl
    · next hn =>
      rw [if_neg hn]
      exact hw.sent_eq c hc
  · have hh : (w.closeContext cx).1.history =
        (w.loopOf cx).queue.map (.dropped cx) ++ .unbound cx :: w.history := rfl
    have hl := w.closeContext_loops cx
    refine ⟨fun c hc => ?_, fun c hc => ?_⟩
    · rw [hh, skip_dropped (f := sent c) fun _ _ => rfl, skip_dropped (f := taken c) fun _ _ => rfl]
      by_cases hn : c = cx
      · subst hn
        have hs := (World.isSome_loop?_modify hl c).symm.trans (World.isSome_loop?_of_isOpen hc)
        rw [World.loopOf_modify_self hl hs] at hc
        cases hc
      · rw [World.loopOf_modify_of_ne hl hn] at hc ⊢
        exact hw.sent_eq c hc
    · rw [hh, skip_dropped (f := sent c) fun _ _ => rfl, skip_dropped (f := taken c) fun _ _ => rfl]
      exact hw.unborn c hc
  · obtain ⟨rest, hq, rfl⟩ := World.take_cases ht
    have hs : (w.loop? cx).isSome := World.isSome_loop?_of_queue (by rw [hq]; exact List.cons_ne_nil _ _)
    have hl := w.pop_loops cx wake rest
    have hh : (w.pop cx wake rest).history = .taken cx wake :: w.history := rfl
    refine ⟨fun c hc => ?_, fun c hc => ?_⟩
    · rw [World.loopOf_modify_part Loop.isOpen hl fun _ => rfl] at hc
      have hsent : sent c (w.pop cx wake rest).history = sent c w.history := rfl
      rw [hsent, hw.sent_eq c hc, hh, taken_taken]
      by_cases hn : cx = c
      · subst hn
        rw [if_pos rfl, World.loopOf_modify_self hl hs, hq, List.append_assoc]
        rfl
      · rw [if_neg hn, World.loopOf_modify_of_ne hl (Ne.symm hn)]
    · have hn : cx ≠ c := by
        rintro rfl
        exact absurd (World.lt_next_of_loop? hs) (Nat.not_lt.2 hc)
      rw [hh, taken_taken, if_neg hn]
      exact hw.unborn c hc
  · rw [World.finish, World.unregister_isOpen] at hc
    rw [World.finish, World.unregister_queue]
    exact hw.sent_eq c hc

/-! ## Wakes come from somewhere -/

/-- What is delivered was taken, and what was taken or is queued was sent. -/
structure Traced (w : World) : Prop where
  queued : ∀ cx, ∀ wake ∈ (w.loopOf cx).queue, wake ∈ sent cx w.history
  taken : ∀ cx, ∀ wake ∈ taken cx w.history, wake ∈ sent cx w.history
  delivering : ∀ d ∈ w.delivering, d.2 ∈ History.taken d.1 w.history

/-- Registering and queueing keep it that every wake was sent. -/
theorem Traced.postLaw : PostLaw Traced where
  aside {w w'} h hw := by
    refine ⟨fun cx => ?_, fun cx => ?_, fun d => ?_⟩
    · rw [h.loopOf, h.sent]
      exact hw.queued cx
    · rw [h.taken, h.sent]
      exact hw.taken cx
    · rw [h.delivering, h.taken]
      exact hw.delivering d
  register {w} cx hw := by
    refine ⟨fun c => ?_, hw.taken, hw.delivering⟩
    rw [World.register_queue]
    exact hw.queued c
  unregister {w} cx hw := by
    refine ⟨fun c => ?_, hw.taken, hw.delivering⟩
    rw [World.unregister_queue]
    exact hw.queued c
  post {w} cx wake hw := by
    by_cases ho : (w.loopOf cx).isOpen
    · have hl := World.post_loops_of_isOpen wake ho
      have hh : (w.post cx wake).1.history = .sent cx wake :: w.history := by
        rw [World.post, if_pos ho]
      have hkeep {c wake'} (h : wake' ∈ sent c w.history) :
          wake' ∈ sent c (w.post cx wake).1.history := by
        rw [hh]
        exact mem_sent.2 (List.mem_cons_of_mem _ (mem_sent.1 h))
      refine ⟨fun c wake' h => ?_, fun c wake' h => ?_, fun d h => ?_⟩
      · by_cases hc : c = cx
        · subst hc
          rw [World.loopOf_modify_self hl (World.isSome_loop?_of_isOpen ho)] at h
          obtain h | h := List.mem_append.1 h
          · exact hkeep (hw.queued c wake' h)
          · rw [List.mem_singleton.1 h, hh]
            exact mem_sent.2 (List.mem_cons_self ..)
        · rw [World.loopOf_modify_of_ne hl hc] at h
          exact hkeep (hw.queued c wake' h)
      · rw [hh] at h
        exact hkeep (hw.taken c wake' h)
      · rw [hh]
        rw [World.post, if_pos ho] at h
        exact hw.delivering d h
    · rw [World.post_of_closed wake ho]
      refine ⟨fun c => ?_, hw.taken, hw.delivering⟩
      rw [World.unregister_queue]
      exact hw.queued c
  bustles h hw := by
    cases h with
    | _ => exact ⟨hw.queued, hw.taken, hw.delivering⟩

/-- **Every delivery is of a wake that was sent.** -/
theorem Reachable.traced {w : World} (h : Reachable w) : Traced w := by
  refine Traced.postLaw.loopLaw.reachable (fun plans => ⟨nofun, nofun, nofun⟩)
    (fun w global _ hw => ⟨fun c wake h => ?_, hw.taken, hw.delivering⟩) (fun w cx hw => ?_)
    (fun w cx wake w' ht hw => ?_)
    (fun w cx token args verdict _ hw => ⟨hw.queued, hw.taken, hw.delivering⟩)
    (fun w cx wake rest broke hd _ hw => ⟨fun c => ?_, hw.taken, fun d h => ?_⟩) h
  · rw [World.loopOf_openContext] at h
    split at h
    · cases h
    · exact hw.queued c wake h
  · have hh : (w.closeContext cx).1.history =
        (w.loopOf cx).queue.map (.dropped cx) ++ .unbound cx :: w.history := rfl
    have hs (c : ContextId) : sent c (w.closeContext cx).1.history = sent c w.history := by
      rw [hh, skip_dropped (f := sent c) fun _ _ => rfl]
      rfl
    have ht (c : ContextId) :
        History.taken c (w.closeContext cx).1.history = History.taken c w.history := by
      rw [hh, skip_dropped (f := History.taken c) fun _ _ => rfl]
      rfl
    refine ⟨fun c wake h => ?_, fun c => ?_, fun d h => ?_⟩
    · rw [hs]
      by_cases hc : c = cx
      · subst hc
        have hl := w.closeContext_loops c
        have hs : (w.loop? c).isSome := (World.isSome_loop?_modify hl c).symm.trans
          (World.isSome_loop?_of_queue (List.ne_nil_of_mem h))
        rw [World.loopOf_modify_self hl hs] at h
        cases h
      · rw [World.loopOf_modify_of_ne (w.closeContext_loops cx) hc] at h
        exact hw.queued c wake h
    · rw [hs, ht]
      exact hw.taken c
    · rw [ht]
      exact hw.delivering d h
  · obtain ⟨rest, hq, rfl⟩ := World.take_cases ht
    have hs : (w.loop? cx).isSome := World.isSome_loop?_of_queue (by rw [hq]; exact List.cons_ne_nil _ _)
    have hl := w.pop_loops cx wake rest
    have hh : (w.pop cx wake rest).history = .taken cx wake :: w.history := rfl
    have hsent (c : ContextId) : sent c (w.pop cx wake rest).history = sent c w.history := rfl
    have htaken {c wake'} (h : wake' ∈ History.taken c w.history) :
        wake' ∈ History.taken c (w.pop cx wake rest).history := by
      rw [hh]
      exact mem_taken.2 (List.mem_cons_of_mem _ (mem_taken.1 h))
    refine ⟨fun c wake' h => ?_, fun c wake' h => ?_, fun d h => ?_⟩
    · rw [hsent]
      by_cases hc : c = cx
      · subst hc
        rw [World.loopOf_modify_self hl hs] at h
        refine hw.queued c wake' ?_
        rw [hq]
        exact List.mem_cons_of_mem _ h
      · rw [World.loopOf_modify_of_ne hl hc] at h
        exact hw.queued c wake' h
    · rw [hsent]
      rw [hh, mem_taken, List.mem_cons] at h
      obtain h | h := h
      · cases h
        exact hw.queued cx wake (by rw [hq]; exact List.mem_cons_self ..)
      · exact hw.taken c wake' (mem_taken.2 h)
    · obtain rfl | h := List.mem_cons.1 h
      · rw [hh]
        exact mem_taken.2 (List.mem_cons_self ..)
      · exact htaken (hw.delivering d h)
  · rw [World.finish, World.unregister_queue]
    exact hw.queued c
  · refine hw.delivering d ?_
    rw [hd]
    exact List.mem_cons_of_mem _ ((congrArg (d ∈ List.tail ·) hd).mp h)

/-! ## Events are decided in order -/

namespace History

/-- An event that is taken is prepared after those that are being prepared already. -/
theorem preparing_taken (cx c : ContextId) (wake : Wake) (h : List Occurrence) :
    preparing c (.taken cx wake :: h) = preparing c h ++ if cx = c then Wake.events [wake] else [] := by
  rw [preparing_of_underway rfl]
  refine congrArg (preparing c h ++ ·) ?_
  cases wake with
  | event token args =>
    by_cases hc : cx = c
    · simp [Wake.event?, Wake.events, eventFor, hc]
    · simp [Wake.event?, eventFor, hc]
  | settle slot status v => simp [Wake.event?, Wake.events, eventFor]
  | script label body => simp [Wake.event?, Wake.events, eventFor]

/-- The event of the innermost delivery is prepared last. -/
theorem preparing_heard {cx : ContextId} {token : Token} {args : List NativeValue}
    {h : List Occurrence} (hu : undecided h = some (cx, token, args)) (verdict : Verdict)
    (c : ContextId) : preparing c h = preparing c (.heard cx token args verdict :: h) ++
      if cx = c then [(token, args)] else [] := by
  obtain ⟨rest, hu⟩ := undecided_eq_some.1 hu
  have hu' : underway (.heard cx token args verdict :: h) = none :: rest := by
    rw [underway, hu, List.tail_cons]
  rw [preparing_of_underway hu, preparing_of_underway hu']
  by_cases hc : cx = c
  · simp [eventFor, hc]
  · simp [eventFor, hc]

/-- A delivery that ends has its event decided. -/
theorem preparing_ended {cx : ContextId} {wake : Wake} {broke : Bool} {h : List Occurrence}
    (hu : undecided h = none) (c : ContextId) :
    preparing c (.ended cx wake broke :: h) = preparing c h := by
  have hu' : underway (.ended cx wake broke :: h) = (underway h).tail := rfl
  rw [undecided] at hu
  cases ho : underway h with
  | nil => rw [preparing, preparing, hu', ho, List.tail_nil]
  | cons o rest =>
    rw [ho, List.head?_cons, Option.join_some] at hu
    subst hu
    rw [preparing_of_underway ho, preparing, hu', ho, List.tail_cons, eventFor, Option.toList_none,
      List.append_nil]

end History

/-- The events that were taken are those that were decided and those that are being prepared.  They are
decided in the order in which they were taken, if no event is taken while another one is being prepared. -/
structure Decided (w : World) : Prop where
  underway : List.Forall₂ (fun d o => ∀ e ∈ o, d = (e.1, Wake.event e.2.1 e.2.2)) w.delivering
    (underway w.history)
  perm : ∀ cx, (Wake.events (taken cx w.history)).Perm
    ((heard cx w.history).map (fun e => (e.1, e.2.1)) ++ preparing cx w.history)
  inOrder : ∀ cx, OneByOne cx w.history → (preparing cx w.history).length ≤ 1 ∧
    Wake.events (taken cx w.history) =
      (heard cx w.history).map (fun e => (e.1, e.2.1)) ++ preparing cx w.history

namespace Decided

variable {w w' : World} {cx : ContextId}

/-- The event of the innermost delivery is that of its wake. -/
theorem innermost (hw : Decided w) {token args} (hu : w.undecided = some (cx, token, args)) :
    ∃ rest, w.delivering = (cx, .event token args) :: rest := by
  obtain ⟨rest, hu⟩ := undecided_eq_some.1 hu
  have h := hw.underway
  rw [hu] at h
  cases hd : w.delivering with
  | nil =>
    rw [hd] at h
    cases h
  | cons d rest =>
    rw [hd] at h
    cases h with
    | cons hd _ => exact ⟨rest, by rw [hd _ rfl]⟩

/-- The history of events and deliveries stays. -/
theorem congr (hw : Decided w) (hd : w'.delivering = w.delivering)
    (hu : History.underway w'.history = History.underway w.history)
    (ht : ∀ cx, taken cx w'.history = taken cx w.history)
    (hh : ∀ cx, heard cx w'.history = heard cx w.history)
    (ho : ∀ cx, OneByOne cx w'.history = OneByOne cx w.history) : Decided w' := by
  have hp (c : ContextId) : preparing c w'.history = preparing c w.history := by
    rw [preparing, preparing, hu]
  refine ⟨by rw [hd, hu]; exact hw.underway, fun c => ?_, fun c hc => ?_⟩
  · rw [ht, hh, hp]
    exact hw.perm c
  · rw [ht, hh, hp]
    exact hw.inOrder c (ho c ▸ hc)

/-- Registering and queueing decide about no event. -/
theorem postLaw : PostLaw Decided where
  aside h hw := hw.congr h.delivering h.underway h.taken h.heard h.oneByOne
  register cx hw := hw.congr rfl rfl (fun _ => rfl) (fun _ => rfl) fun _ => rfl
  unregister cx hw := hw.congr rfl rfl (fun _ => rfl) (fun _ => rfl) fun _ => rfl
  post {w} cx wake hw := by
    rw [World.post]
    split
    · exact hw.congr rfl rfl (fun _ => rfl) (fun _ => rfl) fun _ => rfl
    · exact hw.congr rfl rfl (fun _ => rfl) (fun _ => rfl) fun _ => rfl
  bustles h hw := by
    cases h with
    | _ => exact hw.congr rfl rfl (fun _ => rfl) (fun _ => rfl) fun _ => rfl

/-- The end of a context decides about no event. -/
theorem closeContext (hw : Decided w) (cx : ContextId) : Decided (w.closeContext cx).1 :=
  hw.congr rfl (skip_dropped (f := History.underway) (fun _ _ => rfl) ..)
    (fun c => skip_dropped (f := taken c) (fun _ _ => rfl) ..)
    (fun c => skip_dropped (f := heard c) (fun _ _ => rfl) ..)
    fun c => skip_dropped (f := OneByOne c) (fun _ _ => rfl) ..

/-- The beginning of a delivery prepares its event, or nothing. -/
theorem pop (hw : Decided w) (wake : Wake) (rest : List Wake) : Decided (w.pop cx wake rest) := by
  have hh : (w.pop cx wake rest).history = .taken cx wake :: w.history := rfl
  have hheard (c : ContextId) : heard c (w.pop cx wake rest).history = heard c w.history := rfl
  have htaken (c : ContextId) : Wake.events (taken c (w.pop cx wake rest).history) =
      Wake.events (taken c w.history) ++ if cx = c then Wake.events [wake] else [] := by
    rw [hh, taken_taken]
    split
    · rw [Wake.events_append]
    · rw [List.append_nil]
  refine ⟨.cons (fun e he => ?_) hw.underway, fun c => ?_, fun c hc => ?_⟩
  · obtain ⟨event, hw, rfl⟩ := Option.map_eq_some_iff.1 he
    cases wake with
    | event token args =>
      cases hw
      rfl
    | settle slot status v => cases hw
    | script label body => cases hw
  · rw [htaken, hheard, hh, preparing_taken, ← List.append_assoc]
    exact (hw.perm c).append_right _
  · rw [htaken, hheard, hh, preparing_taken, ← List.append_assoc]
    have hone : (cx = c → Wake.events [wake] ≠ [] → preparing c w.history = []) ∧
        OneByOne c w.history := by
      cases wake with
      | event token args => exact ⟨fun h _ => hc.1 h, hc.2⟩
      | settle slot status v => exact ⟨fun _ h => absurd rfl h, hc⟩
      | script label body => exact ⟨fun _ h => absurd rfl h, hc⟩
    obtain ⟨hlength, heq⟩ := hw.inOrder c hone.2
    refine ⟨?_, congrArg (· ++ _) heq⟩
    split
    · next hcx =>
      by_cases he : Wake.events [wake] = []
      · rwa [he, List.append_nil]
      · rw [hone.1 hcx he, List.nil_append]
        exact List.length_filterMap_le _ [wake]
    · rwa [List.append_nil]

/-- What is decided about was being prepared. -/
theorem hear (hw : Decided w) {token args} (hu : w.undecided = some (cx, token, args))
    (verdict : Verdict) : Decided (w.hear cx token args verdict) := by
  have hh : (w.hear cx token args verdict).history =
    .heard cx token args verdict :: w.history := rfl
  have htaken (c : ContextId) :
    taken c (w.hear cx token args verdict).history = taken c w.history := rfl
  have hheard (c : ContextId) : (heard c (w.hear cx token args verdict).history).map
      (fun e => (e.1, e.2.1)) = (heard c w.history).map (fun e => (e.1, e.2.1)) ++
        if cx = c then [(token, args)] else [] := by
    rw [hh, heard_heard]
    split
    · rw [List.map_append, List.map_cons, List.map_nil]
    · rw [List.append_nil]
  have hprep (c : ContextId) := preparing_heard hu verdict c
  refine ⟨?_, fun c => ?_, fun c hc => ?_⟩
  · obtain ⟨rest, hu⟩ := undecided_eq_some.1 hu
    have h := hw.underway
    rw [hh, History.underway, hu, List.tail_cons]
    rw [hu] at h
    change List.Forall₂ _ w.delivering _
    cases hd : w.delivering with
    | nil =>
      rw [hd] at h
      cases h
    | cons d ds =>
      rw [hd] at h
      cases h with
      | cons _ hrest => exact .cons (fun e he => nomatch he) hrest
  · have hp := hw.perm c
    rw [hprep c, ← List.append_assoc] at hp
    rw [htaken, hheard, hh]
    refine hp.trans ?_
    rw [List.append_assoc, List.append_assoc]
    exact List.Perm.append_left _ List.perm_append_comm
  · obtain ⟨hlength, heq⟩ := hw.inOrder c hc
    rw [hprep c] at hlength heq
    rw [htaken, hheard, hh, heq]
    rw [List.length_append] at hlength
    refine ⟨by omega, ?_⟩
    split
    · next hcx =>
      rw [if_pos hcx, List.length_singleton] at hlength
      rw [List.length_eq_zero_iff.1 (Nat.le_zero.1 (Nat.le_of_add_le_add_right hlength)),
        List.nil_append, List.append_nil]
    · rw [List.append_nil, List.append_nil]

/-- At its end, a delivery has decided about its event. -/
theorem finish (hw : Decided w) {wake rest} (hd : w.delivering = (cx, wake) :: rest)
    (hu : w.undecided = none) (broke : Bool) : Decided (w.finish cx wake broke) := by
  have hh : (w.finish cx wake broke).history = .ended cx wake broke :: w.history := rfl
  have hprep (c : ContextId) :
      preparing c (w.finish cx wake broke).history = preparing c w.history := by
    rw [hh, preparing_ended hu]
  refine ⟨?_, fun c => ?_, fun c hc => ?_⟩
  · have hd' : (w.finish cx wake broke).delivering = rest := (congrArg List.tail hd :)
    have h := hw.underway
    rw [hd', hh, History.underway]
    rw [hd] at h
    cases ho : History.underway w.history with
    | nil =>
      rw [ho] at h
      cases h
    | cons o os =>
      rw [ho] at h
      cases h with
      | cons _ hrest => exact hrest
  · rw [hprep]
    exact hw.perm c
  · rw [hprep]
    exact hw.inOrder c hc

end Decided

/-- **Each event that is taken is decided once**, and events are decided in the order in which they are
taken, if none is taken while another one is being prepared. -/
theorem Reachable.decided {w : World} (h : Reachable w) : Decided w :=
  Decided.postLaw.loopLaw.reachable
    (fun plans => ⟨.nil, fun cx => .refl _, fun cx _ => ⟨Nat.zero_le _, rfl⟩⟩)
    (fun w global _ hw => hw.congr rfl rfl (fun _ => rfl) (fun _ => rfl) fun _ => rfl)
    (fun w cx hw => hw.closeContext cx)
    (fun w cx wake w' ht hw => by
      obtain ⟨rest, -, rfl⟩ := World.take_cases ht
      exact hw.pop wake rest)
    (fun w cx token args verdict hu hw => hw.hear hu verdict)
    (fun w cx wake rest broke hd hu hw => hw.finish hd hu broke) h

end Isthmus
