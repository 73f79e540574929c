import Isthmus.Proofs.Run.Move
import Mathlib.Order.Defs.Unbundled

/-!
# Proofs/Run/Conserve — actions that move the world

`Conserves R m` says that an action relates the world it starts in to the one it ends in, however it
ends.  Actions are made of smaller ones, and so are these statements: one rule for each way to put
actions together.

Two relations matter.  `Passive` moves begin and end no delivery and interrupt no firing; an event may be
being prepared for its subscriber meanwhile.  `Active` ones may deliver in between, but end with the
deliveries with which they began.  A `Discipline` is a relation of this sort; most actions conserve any.
-/

namespace Isthmus

open History

/-! ## Relations between worlds -/

/-- The deliveries and errands that are under way, and how events were delivered so far. -/
def World.course (w : World) :=
  (w.delivering, w.errands, underway w.history, fun cx => OneByOne cx w.history)

/-- The same deliveries and errands are under way, no firing was interrupted, and if no event was being
prepared, none was taken while another one was. -/
structure Resumes (w w' : World) : Prop where
  delivering : w'.delivering = w.delivering
  errands : w'.errands = w.errands
  underway : underway w'.history = underway w.history
  oneByOne : ∀ cx, preparing cx w.history = [] → OneByOne cx w.history → OneByOne cx w'.history
  prompt : w.Prompt → w'.Prompt

namespace Resumes

variable {w w' w'' : World}

/-- To leave the course of deliveries as it was is to resume it. -/
theorem of_course (h : w'.course = w.course) (hp : w.Prompt → w'.Prompt) : Resumes w w' := by
  simp only [World.course, Prod.mk.injEq] at h
  obtain ⟨hd, he, hu, ho⟩ := h
  exact ⟨hd, he, hu, fun cx _ => (congrFun ho cx).mpr, hp⟩

/-- The same events are being prepared. -/
theorem preparing (h : Resumes w w') (cx : ContextId) :
    preparing cx w'.history = preparing cx w.history := by
  rw [History.preparing, History.preparing, h.underway]

/-- What resumes the course twice resumes it. -/
theorem trans (h : Resumes w w') (h' : Resumes w' w'') : Resumes w w'' where
  delivering := h'.delivering.trans h.delivering
  errands := h'.errands.trans h.errands
  underway := h'.underway.trans h.underway
  oneByOne cx hp ho := h'.oneByOne cx ((h.preparing cx).trans hp) (h.oneByOne cx hp ho)
  prompt hp := h'.prompt (h.prompt hp)

end Resumes

/-- Moves that begin and end no delivery, and interrupt no firing. -/
def Passive (w w' : World) : Prop :=
  Reachable w → Moves w w' ∧ w'.course = w.course ∧ (w.Prompt → w'.Prompt)

/-- Moves that end all deliveries that they begin. -/
def Active (w w' : World) : Prop :=
  Reachable w → Moves w w' ∧ Resumes w w'

/-- A reflexive and transitive relation that holds for passive moves. -/
class Discipline (R : World → World → Prop) : Prop where
  trans {a b c : World} : R a b → R b c → R a c
  passive {a b : World} : Passive a b → R a b

theorem Passive.refl (w : World) : Passive w w :=
  fun _ => ⟨.refl, rfl, id⟩

/-- Passive moves follow each other. -/
theorem Passive.trans {a b c : World} (h : Passive a b) (h' : Passive b c) : Passive a c := by
  intro ha
  obtain ⟨hm, hc, hp⟩ := h ha
  obtain ⟨hm', hc', hp'⟩ := h' (ha.moves hm)
  exact ⟨hm.trans hm', hc'.trans hc, fun h => hp' (hp h)⟩

/-- Quiet moves are passive. -/
theorem Passive.quiet {w w' : World} (h : Quiet w w') : Passive w w' := by
  refine fun _ => ⟨.single (.quiet h), ?_, fun hp cx => ?_⟩
  · rw [World.course, World.course, h.delivering, h.errands, h.history]
  · rw [World.eventsFor, World.loopOf, World.loop?, h.loops, h.history]
    exact hp cx

instance : Discipline Passive where
  trans := Passive.trans
  passive h := h

instance : Discipline Active where
  trans h h' ha := by
    obtain ⟨hm, hr⟩ := h ha
    obtain ⟨hm', hr'⟩ := h' (ha.moves hm)
    exact ⟨hm.trans hm', hr.trans hr'⟩
  passive h ha := by
    obtain ⟨hm, hc, hp⟩ := h ha
    exact ⟨hm, .of_course hc hp⟩

theorem Discipline.refl {R : World → World → Prop} [Discipline R] (w : World) : R w w :=
  passive (.refl w)

instance {R : World → World → Prop} [Discipline R] : IsPreorder World R where
  refl := Discipline.refl
  trans _ _ _ := Discipline.trans

/-! ## Actions -/

namespace Engine

variable {α β : Type}

/-- The world in which an action ends. -/
def after (m : Engine α) (w : World) : World :=
  match m.run w with
  | .ok _ w' => w'
  | .error _ w' => w'

/-- The world after an action that succeeds. -/
theorem after_of_ok {m : Engine α} {w w' : World} {a : α} (h : m.run w = .ok a w') :
    m.after w = w' := by
  rw [after, h]

/-- The world after one that stops. -/
theorem after_of_error {m : Engine α} {w w' : World} {e : Stop} (h : m.run w = .error e w') :
    m.after w = w' := by
  rw [after, h]

/-- An action in two parts ends where its first part does, if that stops early, and where the second
does otherwise. -/
theorem after_bind (m : Engine α) (f : α → Engine β) (w : World) :
    (m >>= f).after w = match m.run w with
      | .ok a w' => (f a).after w'
      | .error _ w' => w' := by
  simp only [after, EStateM.run_bind]
  cases m.run w <;> rfl

/-- Reading the world goes on with the world as it is. -/
theorem run_get_bind (f : World → Engine α) (w : World) :
    ((get : Engine World) >>= f).run w = (f w).run w := rfl

/-- An action in two parts goes on where its first part ended. -/
theorem run_bind_of_ok {m : Engine α} {f : α → Engine β} {w w' : World} {a : α}
    (h : m.run w = .ok a w') : (m >>= f).run w = (f a).run w' := by
  rw [EStateM.run_bind, h]

/-- Nothing follows an action that stops. -/
theorem run_bind_of_error {m : Engine α} {f : α → Engine β} {w w' : World} {e : Stop}
    (h : m.run w = .error e w') : (m >>= f).run w = .error e w' := by
  rw [EStateM.run_bind, h]

/-- An action in two parts that comes to its end has come to the end of both. -/
theorem bind_ok {m : Engine α} {f : α → Engine β} {w w' : World} {b : β}
    (h : (m >>= f).run w = .ok b w') :
    ∃ a w₁, m.run w = .ok a w₁ ∧ (f a).run w₁ = .ok b w' := by
  rw [EStateM.run_bind] at h
  cases hm : m.run w with
  | ok a w₁ =>
    rw [hm] at h
    exact ⟨a, w₁, rfl, h⟩
  | error e w₁ =>
    rw [hm] at h
    cases h

/-- A pure continuation changes nothing. -/
theorem after_bind_pure (f : α → β) (m : Engine α) (w : World) :
    (m >>= fun a => pure (f a)).after w = m.after w := by
  rw [after_bind, after]
  cases m.run w <;> rfl

/-- An attempt gives the way in which the action ended. -/
theorem run_attempt (m : Engine α) (w : World) :
    (attempt m).run w = match m.run w with
      | .ok a w' => .ok (.ok a) w'
      | .error e w' => .ok (.error e) w' := by
  simp only [attempt, EStateM.run, tryCatch, tryCatchThe, MonadExceptOf.tryCatch, bind]
  delta EStateM.tryCatch
  simp only [EStateM.bind]
  cases m w <;> rfl

/-- An attempt leaves the world as the action leaves it. -/
theorem after_attempt (m : Engine α) (w : World) : (attempt m).after w = m.after w := by
  rw [after, after, run_attempt]
  cases m.run w <;> rfl

end Engine

/-- Whatever world the action starts in, it relates it to the one in which it ends. -/
def Conserves {α : Type} (R : World → World → Prop) (m : Engine α) : Prop :=
  ∀ w, R w (m.after w)

namespace Conserves

variable {α β : Type} {R : World → World → Prop} [IsPreorder World R]

theorem pure {a : α} : Conserves R (Pure.pure a : Engine α) :=
  fun w => refl_of R w

theorem throw {e : Stop} : Conserves R (MonadExcept.throw e : Engine α) :=
  fun w => refl_of R w

theorem abort {text : String} : Conserves R (Engine.abort text : Engine α) :=
  fun w => refl_of R w

theorem fail {kind message : String} : Conserves R (Engine.fail kind message : Engine α) :=
  fun w => refl_of R w

theorem raise {v : ForeignValue} : Conserves R (Engine.raise v : Engine α) :=
  throw

theorem get : Conserves R (MonadState.get : Engine World) :=
  fun w => refl_of R w

omit [IsPreorder World R] in
/-- A change conserves what it conserves in each world. -/
theorem modify {f : World → World} (h : ∀ w, R w (f w)) :
    Conserves R (modifyGet fun w => ((), f w) : Engine Unit) :=
  fun w => h w

/-- The first part may depend on the world in which it starts, and the second on what the first left
behind. -/
theorem step_now {m : Engine α} {f : α → Engine β} {w : World} (h : R w (m.after w))
    (hf : ∀ a w', m.run w = .ok a w' → R w' ((f a).after w')) : R w ((m >>= f).after w) := by
  rw [Engine.after_bind]
  cases hr : m.run w with
  | ok a w' =>
    rw [Engine.after_of_ok hr] at h
    exact trans_of R h (hf a w' hr)
  | error e w' =>
    rwa [Engine.after_of_error hr] at h

omit [IsPreorder World R] in
/-- An action that came to its end relates the world in which it started to the one that it left. -/
theorem of_run {m : Engine α} {a : α} {w w' : World} (h : Conserves R m) (hr : m.run w = .ok a w') :
    R w w' := by
  have h := h w
  rwa [Engine.after_of_ok hr] at h

/-- The second part may use what the first part left behind. -/
theorem bind_now {m : Engine α} {f : α → Engine β} {w : World} (hm : Conserves R m)
    (hf : ∀ a w', m.run w = .ok a w' → R w' ((f a).after w')) : R w ((m >>= f).after w) :=
  step_now (hm w) hf

/-- One action after another, where the second may use what the first gave. -/
theorem bind' {m : Engine α} {f : α → Engine β} (hm : Conserves R m)
    (hf : ∀ w a w', m.run w = .ok a w' → R w' ((f a).after w')) : Conserves R (m >>= f) :=
  fun w => bind_now hm (hf w)

/-- One action after another. -/
theorem bind {m : Engine α} {f : α → Engine β} (hm : Conserves R m)
    (hf : ∀ a, Conserves R (f a)) : Conserves R (m >>= f) :=
  bind' hm fun _ a w' _ => hf a w'

theorem object {id : ObjectId} : Conserves R (Engine.object id) := by
  refine bind get fun w => ?_
  split
  · exact pure
  · exact abort

theorem context {cx : ContextId} : Conserves R (Engine.context cx) := by
  refine bind get fun w => ?_
  split
  · exact pure
  · exact abort

/-- A check that may stop the action. -/
theorem check {c : Prop} [Decidable c] {m : Engine PUnit} {f : PUnit → Engine β}
    (hm : Conserves R m) (hf : ∀ u, Conserves R (f u)) :
    Conserves R (if c then m >>= f else f ⟨⟩) := by
  split
  · exact bind hm hf
  · exact hf _

/-- The check of a context only reads. -/
theorem checkOwned {cx : ContextId} {id : ObjectId} : Conserves R (Engine.checkOwned cx id) := by
  refine bind object fun o => ?_
  split
  · exact abort
  · exact pure

/-- A prototype is checked, and then the object is added. -/
theorem withPrototype {cx : ContextId} {proto : Option ObjectId}
    (h : Conserves R (Engine.allocate { context := cx, prototype := proto })) :
    Conserves R (Engine.createWithPrototype cx proto) := by
  cases proto with
  | none => exact h
  | some p => exact bind checkOwned fun _ => h

theorem bridge {cx : ContextId} : Conserves R (Engine.bridge cx) := by
  refine bind get fun w => ?_
  split
  · exact pure
  · exact abort

theorem registry {cx : ContextId} : Conserves R (Engine.registry cx) :=
  bind bridge fun _ => pure

/-- What is looked at is not changed. -/
theorem look {cx : ContextId} {r : Except Refusal α} : Conserves R (Engine.look cx r) := by
  unfold Engine.look
  split
  · exact pure
  · exact abort
  · exact abort

theorem canFromForeign {cx : ContextId} {registry : Registry} {v : ForeignValue} {target : TypeId} :
    Conserves R (Engine.canFromForeign cx registry v target) :=
  bind get fun _ => look

theorem fromForeign {cx : ContextId} {registry : Registry} {v : ForeignValue} {target : TypeId} :
    Conserves R (Engine.fromForeign cx registry v target) :=
  bind get fun _ => look

omit [IsPreorder World R] in
/-- An action that looks at the world first. -/
theorem now {f : World → Engine β} (h : ∀ w, R w ((f w).after w)) :
    Conserves R (MonadState.get >>= f) :=
  fun w => h w

theorem map {m : Engine α} {f : α → β} (hm : Conserves R m) : Conserves R (f <$> m) := by
  rw [map_eq_pure_bind]
  exact bind hm fun a => pure

omit [IsPreorder World R] in
/-- A choice of actions, where each may use why it was chosen. -/
theorem ite {c : Prop} [Decidable c] {m m' : Engine α} (h : c → Conserves R m)
    (h' : ¬ c → Conserves R m') : Conserves R (if c then m else m') := by
  split
  · exact h ‹_›
  · exact h' ‹_›

omit [IsPreorder World R] in
/-- To catch a stop conserves the same. -/
theorem attempt {m : Engine α} (h : Conserves R m) : Conserves R (Engine.attempt m) :=
  fun w => Engine.after_attempt m w ▸ h w

/-- To raise it again changes nothing. -/
theorem resume {r : Except Stop α} : Conserves R (Engine.resume r) := by
  cases r with
  | ok a => exact pure
  | error e => exact throw

/-- An action for each item. -/
theorem forM {f : α → Engine PUnit} (h : ∀ a, Conserves R (f a)) {as : List α} :
    Conserves R (as.forM f) := by
  induction as with
  | nil => exact pure
  | cons a as ih => exact bind (h a) fun _ => ih

/-- The same, with results. -/
theorem mapM {f : α → Engine β} (h : ∀ a, Conserves R (f a)) {as : List α} :
    Conserves R (as.mapM f) := by
  induction as with
  | nil => exact pure
  | cons a as ih =>
    rw [List.mapM_cons]
    exact bind (h a) fun b => bind ih fun bs => pure

theorem optionMapM {f : α → Engine β} (h : ∀ a, Conserves R (f a)) {o : Option α} :
    Conserves R (o.mapM f) := by
  cases o with
  | none => exact pure
  | some a => exact map (h a)

end Conserves

end Isthmus
