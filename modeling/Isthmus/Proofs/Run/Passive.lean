import Isthmus.Proofs.Lifetime.Release
import Isthmus.Proofs.Run.Conserve
import Isthmus.Proofs.Run.Firings

/-!
# Proofs/Run/Passive — what leaves the deliveries alone

Every operation of the runtime is a move, and most of them begin and end no delivery (`Passive`).  Letting
go is a sequence of such moves: each destroys a thing that has no owner left.
-/

namespace Isthmus

open History

/-- A post that leaves the errands as they were leaves the course of deliveries as it was. -/
theorem World.Posts.course {w w' : World} (h : Posts w w') {es : List Errand}
    (he : w'.errands = es) : w'.course = World.course { w with errands := es } := by
  subst he
  cases h with
  | _ => rfl

/-- So does what is beside the loops. -/
theorem Aside.course {w w' : World} (h : Aside w w') : w'.course = w.course := by
  rw [World.course, World.course, h.delivering, h.errands, h.underway, funext h.oneByOne]

namespace Passive

variable {w w' : World}

/-! ## Operations -/

/-- One move that leaves the deliveries and the errands alone. -/
theorem move (h : Move w w') (hc : w'.course = w.course) : Passive w w' :=
  fun hr => ⟨.single h, hc, fun hp => hp.move hr h (congrArg (·.2.1) hc)⟩

/-- A move beside the loops is passive. -/
theorem aside (h : Move w w') (ha : Aside w w') : Passive w w' :=
  .move h ha.course

/-- A move that only posts, and leaves the errands as they were, is passive. -/
theorem posts (h : Move w w') (hp : World.Posts w w') (he : w'.errands = w.errands) : Passive w w' :=
  .move h (hp.course he)

theorem openContext (w : World) (global : ObjectId) : Passive w (w.openContext global) :=
  .move (.openContext global) rfl

/-- The end of a context is passive: its deliveries come to their end all the same. -/
theorem closeContext (w : World) (cx : ContextId) : Passive w (w.closeContext cx).1 := by
  refine .move (.closeContext cx) ?_
  have hu : underway (w.closeContext cx).1.history = underway w.history :=
    skip_dropped (f := underway) (fun _ _ => rfl) ..
  have ho (c : ContextId) : OneByOne c (w.closeContext cx).1.history = OneByOne c w.history :=
    skip_dropped (f := OneByOne c) (fun _ _ => rfl) ..
  rw [World.course, hu, funext ho]
  rfl

/-- A bridge is installed on a context that is there. -/
theorem install {cx : ContextId} (hc : (w.context? cx).isSome) (registry : Registry) :
    Passive w (w.install cx registry) :=
  .aside (.install registry hc) (.install w cx registry)

theorem unbind (w : World) (cx : ContextId) (text : Option String) : Passive w (w.unbind cx text) :=
  .aside (.unbind cx text) (.unbind w cx text)

/-- The host opens scopes on contexts that are there. -/
theorem openScope {cx : ContextId} (h : (w.context? cx).isSome) : Passive w (w.openScope cx) :=
  .aside (.openScope h) (.openScope w cx)

/-- It closes as many as it has opened. -/
theorem closeScope {cx : ContextId} (h : 0 < History.scopes cx w.history) :
    Passive w (w.closeScope cx) :=
  .aside (.closeScope h) (.closeScope w cx)

/-- A class is kept once its constructor is there. -/
theorem keepClass {cx id i o} (e : ClassKey × ObjectId) (hb : w.bridge? cx = some (id, i))
    (ho : w.object? e.2 = some o) (hc : o.context = cx) (hf : o.isFunction) :
    Passive w { w with installations := w.installations.modify id.index fun i =>
      { i with classes := i.classes ++ [e] } } :=
  .move (.keepClass e hb ho hc hf) rfl

/-- To complete a deferred and send its wake, without an interruption, is passive. -/
theorem complete {id status v more} (h : w.complete id status v = some (w', more)) :
    Passive w w' := by
  refine fun _ => ⟨.complete h, ?_, fun hp => hp.complete h⟩
  obtain ⟨d, -, -, -, rfl⟩ := World.complete_cases h
  split
  · exact (World.Posts.launch _ [] w.errands _ _).course (World.launch_errands ..)
  · rfl

/-- So is converting a deferred. -/
theorem promise {cx home i id d} (hb : w.bridge? cx = some (home, i))
    (hd : w.deferred? id = some d) : Passive w (w.promise cx home i.nextSlot id d).1 := by
  have he := w.promise_errands cx home i.nextSlot hd
  obtain ⟨-, hp⟩ | ⟨-, hp⟩ := w.promise_posts cx home i.nextSlot hd
  · exact .move (.promise hb hd) (hp.course he)
  · exact .move (.promise hb hd) (hp.course he)

/-- New channels have no subscribers. -/
theorem connect {c : Channels} {i} (hb : w.bridge? c.context = some (c.installation, i))
    (hs : ∀ s ∈ c.subscribers, s = none) :
    Passive w { w with channels := w.channels.insert c } :=
  .move (.connect hb hs) rfl

theorem setSubscriber {cx home i} (hb : w.bridge? cx = some (home, i)) (id : ChannelsId)
    (place : Nat) (callback : Option ForeignValue) :
    Passive w (w.setSubscriber id place home i.nextSlot callback).1 :=
  .aside (.setSubscriber id place callback hb) (.setSubscriber w ..)

/-- A firing without interruption is passive: it leaves no errand behind. -/
theorem fire (w : World) (id : ChannelsId) (event : Nat) (args : List NativeValue) :
    Passive w (w.fire id event args).1 := by
  refine fun _ => ⟨.fire w id event args, ?_, fun hp => hp.fire id event args⟩
  rw [World.fire]
  split
  · next cx token h =>
    have hp := World.Posts.launch ((w.aim cx token args).arm [] w.errands cx (.event token args)) []
      w.errands cx (.event token args)
    exact hp.course (World.launch_errands ..)
  · rfl

/-- Who makes a ticket registers with a loop that is there. -/
theorem newTicket {cx : ContextId} (h : (w.loop? cx).isSome) (name : String) :
    Passive w (w.newTicket name cx) :=
  .posts (.newTicket name h) (.newTicket w ..) (w.newTicket_errands ..)

theorem sendTicket {name cx} (h : w.roots.tickets.find? name = some cx) (label : String)
    (body : List Script.Step) : Passive w (w.sendTicket name cx label body).1 :=
  .posts (.sendTicket h label body) (.sendTicket w ..) (World.post_errands ..)

theorem dropTicket {name cx} (h : w.roots.tickets.find? name = some cx) :
    Passive w (w.dropTicket name cx) :=
  .posts (.dropTicket h) (.dropTicket w ..) rfl

/-! ## Letting go -/

/-- To destroy what nobody owns is passive. -/
theorem destroy {r : Ref} (h : r ∉ w.references) : Passive w (w.destroy r).1 := by
  have hm : Move w (w.destroy r).1 := .destroy r h
  have hd := w.destroys r
  generalize (w.destroy r).1 = w' at hd hm ⊢
  cases hd with
  | channels hc => exact .aside hm ((Aside.disconnect w _ _).trans (.prune (w.disconnect _ _) _))
  | @abandoned id d k hd ha =>
    have hp := World.Posts.post (w.expire id) k.context
      (.settle k.slot .rejected Deferred.droppedReason)
    exact .move hm (hp.course (World.post_errands ..))
  | _ => exact .move hm rfl

end Passive

/-! ## What native code does -/

/-- A reflexive and transitive relation that holds for what native code does of itself: it changes
instances, adds deferreds, fires events, and destroys what it was the last to own. -/
class Tame (R : World → World → Prop) : Prop extends IsPreorder World R where
  quiet {w w' : World} : Quiet w w' → R w w'
  newDeferred (w : World) : R w w.newDeferred
  fire (w : World) (id : ChannelsId) (event : Nat) (args : List NativeValue) :
    R w (w.fire id event args).1
  destroy {w : World} {r : Ref} : r ∉ w.references → R w (w.destroy r).1

namespace Tame

instance {R : World → World → Prop} [Discipline R] : Tame R where
  quiet h := Discipline.passive (.quiet h)
  newDeferred _ := Discipline.passive (.move .newDeferred rfl)
  fire w id event args := Discipline.passive (.fire w id event args)
  destroy h := Discipline.passive (.destroy h)

end Tame

/-- A reflexive and transitive relation that holds for letting go of things. -/
class Releases (R : World → World → Prop) : Prop extends IsPreorder World R where
  release (w : World) (fs : List Farewell) : R w (w.release fs)

instance {R : World → World → Prop} [Tame R] : Releases R where
  release :=
    World.release_induction (fun _ _ => Tame.quiet (.of_eq rfl rfl)) fun _ _ h => Tame.destroy h

/-! ## Actions of one operation -/

namespace Engine

variable {w w' : World} {cx : ContextId}

/-- A context is there if it is found, and finding it changes nothing. -/
theorem context_ok {c} (h : (context cx).run w = .ok c w') : w' = w ∧ w.context? cx = some c := by
  rw [context, run_get_bind] at h
  split at h
  · cases h
    exact ⟨rfl, ‹_›⟩
  · cases h

/-- So it is with the bridge of a context. -/
theorem bridge_ok {b} (h : (bridge cx).run w = .ok b w') : w' = w ∧ w.bridge? cx = some b := by
  rw [bridge, run_get_bind] at h
  split at h
  · cases h
    exact ⟨rfl, ‹_›⟩
  · cases h

theorem run_bridge {b} (h : w.bridge? cx = some b) : (bridge cx).run w = .ok b w := by
  rw [bridge, run_get_bind, h]
  rfl

theorem run_object {id : ObjectId} {o} (h : w.object? id = some o) :
    (object id).run w = .ok o w := by
  rw [object, run_get_bind, h]
  rfl

/-- So it is with an object. -/
theorem object_ok {id : ObjectId} {o} (h : (object id).run w = .ok o w') :
    w' = w ∧ w.object? id = some o := by
  rw [object, run_get_bind] at h
  split at h
  · cases h
    exact ⟨rfl, ‹_›⟩
  · cases h

end Engine

namespace Conserves

variable {R : World → World → Prop} {α β : Type}

/-- A quiet change conserves what is tame. -/
theorem quiet [Tame R] {f : World → World} (h : ∀ w, Quiet w (f w)) :
    Conserves R (modifyGet fun w => ((), f w) : Engine Unit) :=
  modify fun w => Tame.quiet (h w)

/-- An action that looks at the world, changes it and goes on. -/
theorem update [IsPreorder World R] {f : World → World} {k : World → Engine β} (h : ∀ w, R w (f w))
    (hk : ∀ w, Conserves R (k w)) : Conserves R (do let w ← MonadState.get; set (f w); k w) :=
  fun w => trans_of R (h w) (hk w (f w))

/-- An operation conserves what it conserves before anything is released. -/
theorem operate [Releases R] {f : World → World × List Farewell} (h : ∀ w, R w (f w).1) :
    Conserves R (Engine.operate f) :=
  fun w => trans_of R (h w) (Releases.release (f w).1 (f w).2)

/-! What an action may do depends on the world that it found. -/

section Now

variable {w w' : World} {k : Unit → Engine β}

/-- Conservation from one world on, for a program that begins by reading. -/
theorem get_now {f : World → Engine β} (h : R w ((f w).after w)) :
    R w ((MonadState.get >>= f).after w) :=
  h

/-- The same, for one that begins by replacing the world. -/
theorem set_now [IsPreorder World R] (h : R w w') (hk : ∀ u, Conserves R (k u)) :
    R w ((set w' >>= k : Engine β).after w) :=
  trans_of R h (hk () w')

/-- The same, for one that begins by changing it. -/
theorem modify_now [IsPreorder World R] {f : World → World} (h : R w (f w)) (hk : ∀ u, Conserves R (k u)) :
    R w (((modifyGet fun w => ((), f w) : Engine Unit) >>= k).after w) :=
  trans_of R h (hk () (f w))

/-- The same, for one that begins by holding references. -/
theorem hold_now [Tame R] {refs : List Ref}
    (hk : ∀ held, R { w with held } ((k ()).after { w with held })) :
    R w ((Engine.hold refs >>= k).after w) := by
  have hq (held : List (List Ref)) : Quiet w { w with held } := .of_eq rfl rfl
  exact trans_of R (Tame.quiet (hq _)) (hk _)

/-- The same, for one that begins with an operation. -/
theorem operate_now [Releases R] {f : World → World × List Farewell} (h : R w (f w).1)
    (hk : ∀ u, Conserves R (k u)) : R w ((Engine.operate f >>= k).after w) :=
  trans_of R (trans_of R h (Releases.release (f w).1 (f w).2)) (hk () _)

end Now

theorem openFrame [Tame R] : Conserves R Engine.openFrame :=
  quiet fun _ => .of_eq rfl rfl

theorem closeFrame [Tame R] : Conserves R Engine.closeFrame :=
  fun w => IsTrans.trans _ { w with held := w.held.tail } _ (Tame.quiet (.of_eq rfl rfl))
    (Releases.release _ _)

end Conserves

/-! ## Keeping and letting go -/

/-- A reflexive and transitive relation that holds for keeping things and for letting go of them. -/
class Holds (R : World → World → Prop) : Prop extends IsPreorder World R where
  hold (refs : List Ref) : Conserves R (Engine.hold refs)
  letGo (refs : List Ref) : Conserves R (Engine.letGo refs)
  framed {α : Type} {m : Engine α} : Conserves R m → Conserves R (Engine.framed m)

instance {R : World → World → Prop} [Tame R] : Holds R where
  hold _ := .quiet fun _ => .of_eq rfl rfl
  letGo _ w := Releases.release w _
  framed h := by
    refine .bind .openFrame fun _ => .bind (.attempt h) fun result => ?_
    have hclose : Conserves R (do Engine.closeFrame; Engine.resume result) :=
      .bind .closeFrame fun _ => .resume
    split
    · exact .bind (.quiet fun _ => .of_eq rfl rfl) fun _ => hclose
    · exact hclose

namespace Conserves

variable {R : World → World → Prop} [Holds R] {α : Type}

/-- Letting go conserves what is kept by destroying what is unowned. -/
theorem letGo {refs : List Ref} : Conserves R (Engine.letGo refs) :=
  Holds.letGo refs

/-- To hold references is quiet. -/
theorem hold {refs : List Ref} : Conserves R (Engine.hold refs) :=
  Holds.hold refs

/-- A frame is closed by letting go what it holds. -/
theorem framed {m : Engine α} (h : Conserves R m) : Conserves R (Engine.framed m) :=
  Holds.framed h

theorem keep {v : ForeignValue} : Conserves R (Engine.keep v) :=
  bind hold fun _ => pure

end Conserves

end Isthmus
