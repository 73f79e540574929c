import Isthmus.Proofs.Run.Session
import Isthmus.Proofs.Run.Registrations
import Isthmus.Proofs.Run.Scopes
import Isthmus.Proofs.Values.Describe

/-!
# Proofs/Run/Dispatch — what a loop accounts for

`Reachable.accounted`: in every world that a run leads to, also in the middle of a delivery, the
registrations with a loop are those of unsent bridges, of queued wakes and of deliveries under way; the
deliveries began in the order of sending; the handle scopes are those of the deliveries and of the host.
A throw costs one line of diagnostics and nothing else, a loop that says it is idle is, and a loop whose
context is gone delivers nothing any more.
-/

namespace Isthmus

open History

/-! ## Order -/

/-- A closed loop has nothing queued, and what was taken from it was sent, in this order. -/
def Emptied (w : World) : Prop :=
  ∀ cx, ¬ (w.loopOf cx).isOpen →
    (w.loopOf cx).queue = [] ∧ taken cx w.history <+: sent cx w.history

/-- Registering and queueing leave closed loops empty. -/
theorem Emptied.postLaw : PostLaw Emptied where
  aside {w w'} h hw := by
    intro c hc
    rw [h.loopOf] at hc ⊢
    rw [h.taken, h.sent]
    exact hw c hc
  register {w} cx hw := by
    intro c hc
    rw [World.register_isOpen] at hc
    rw [World.register_queue]
    exact hw c hc
  unregister {w} cx hw := by
    intro c hc
    rw [World.unregister_isOpen] at hc
    rw [World.unregister_queue]
    exact hw c hc
  post {w} cx wake hw := by
    intro c hc
    rw [World.post_isOpen] at hc
    by_cases ho : (w.loopOf cx).isOpen
    · have hn : cx ≠ c := by
        rintro rfl
        exact hc ho
      have hh : (w.post cx wake).1.history = .sent cx wake :: w.history := by
        rw [World.post, if_pos ho]
      rw [World.loopOf_modify_of_ne (World.post_loops_of_isOpen wake ho) (Ne.symm hn), hh, sent_sent,
        if_neg hn]
      exact hw c hc
    · rw [World.post_of_closed wake ho, World.unregister_queue]
      exact hw c hc
  bustles h hw := by
    cases h with
    | _ => exact hw

/-- What the end of a context adds to the history. -/
theorem World.closeContext_history (w : World) (cx : ContextId) : (w.closeContext cx).1.history =
    (w.loopOf cx).queue.map (.dropped cx) ++ .unbound cx :: w.history := rfl

/-- A context leaves a closed loop behind with nothing queued. -/
theorem World.loopOf_closeContext (w : World) (cx : ContextId) :
    ((w.closeContext cx).1.loopOf cx).queue = [] ∧ ¬ ((w.closeContext cx).1.loopOf cx).isOpen := by
  have hl := w.closeContext_loops cx
  by_cases hs : (w.loop? cx).isSome
  · rw [World.loopOf_modify_self hl hs]
    exact ⟨rfl, Bool.false_ne_true⟩
  · have hn : (w.closeContext cx).1.loop? cx = none := by
      rw [← World.isSome_loop?_modify hl] at hs
      exact Option.not_isSome_iff_eq_none.1 hs
    rw [World.loopOf, hn]
    exact ⟨rfl, Bool.false_ne_true⟩

/-- The end of a context sends nothing. -/
theorem sent_closeContext (w : World) (cx c : ContextId) :
    sent c (w.closeContext cx).1.history = sent c w.history := by
  rw [w.closeContext_history, skip_dropped (f := sent c) fun _ _ => rfl]
  rfl

/-- It takes nothing. -/
theorem taken_closeContext (w : World) (cx c : ContextId) :
    taken c (w.closeContext cx).1.history = taken c w.history := by
  rw [w.closeContext_history, skip_dropped (f := taken c) fun _ _ => rfl]
  rfl

/-- **A closed loop is empty**, in every reachable world. -/
theorem Reachable.emptied {w : World} (h : Reachable w) : Emptied w := by
  refine h.rec' (fun plans cx _ => ⟨rfl, List.prefix_rfl⟩) fun w w' hr hw hm => ?_
  refine Emptied.postLaw.loopLaw.move hw hm (fun global c hc => ?_) (fun cx c hc => ?_)
    (fun cx wake w₁ ht c hc => ?_) (fun cx token args verdict hu => hw)
    fun cx wake rest broke hd hu c hc => ?_
  · rw [World.loopOf_openContext] at hc ⊢
    split at hc
    · exact absurd rfl hc
    · next hn =>
      rw [if_neg hn]
      exact hw c hc
  · rw [sent_closeContext, taken_closeContext]
    have hl := w.closeContext_loops cx
    by_cases hn : c = cx
    · subst hn
      have htaken : taken c w.history <+: sent c w.history := by
        by_cases ho : (w.loopOf c).isOpen
        · rw [hr.queued.sent_eq c ho]
          exact List.prefix_append ..
        · exact (hw c ho).2
      exact ⟨(w.loopOf_closeContext c).1, htaken⟩
    · rw [World.loopOf_modify_of_ne hl hn] at hc ⊢
      exact hw c hc
  · obtain ⟨rest, hq, rfl⟩ := World.take_cases ht
    have hl := w.pop_loops cx wake rest
    rw [World.loopOf_modify_part Loop.isOpen hl fun _ => rfl] at hc
    have hn : cx ≠ c := by
      rintro rfl
      have hnil := (hw cx hc).1
      rw [hq] at hnil
      cases hnil
    have hh : (w.pop cx wake rest).history = .taken cx wake :: w.history := rfl
    have hsent : sent c (w.pop cx wake rest).history = sent c w.history := rfl
    rw [World.loopOf_modify_of_ne hl (Ne.symm hn), hsent, hh, taken_taken, if_neg hn]
    exact hw c hc
  · rw [World.finish, World.unregister_isOpen] at hc
    rw [World.finish, World.unregister_queue]
    exact hw c hc

/-- **Deliveries begin in the order of sending**, each wake at most once. -/
theorem Reachable.taken_prefix {w : World} (h : Reachable w) (cx : ContextId) :
    taken cx w.history <+: sent cx w.history := by
  by_cases ho : (w.loopOf cx).isOpen
  · rw [h.queued.sent_eq cx ho]
    exact List.prefix_append ..
  · exact (h.emptied cx ho).2

/-! ## Loops without a context -/

/-- Only a context has an open loop. -/
def Contextual (w : World) : Prop :=
  ∀ cx, (w.loopOf cx).isOpen → (w.context? cx).isSome

/-- Registering and queueing leave it so that open loops have contexts. -/
theorem Contextual.postLaw : PostLaw Contextual where
  aside {w w'} h hw := by
    intro c hc
    rw [h.loopOf] at hc
    rw [h.contexts]
    exact hw c hc
  register {w} cx hw c hc := hw c ((w.register_isOpen cx c).symm.trans hc)
  unregister {w} cx hw c hc := hw c ((w.unregister_isOpen cx c).symm.trans hc)
  post {w} cx wake hw c hc := by
    have hcontext : (w.post cx wake).1.context? c = w.context? c := by
      rw [World.post]
      split
      · rfl
      · rfl
    rw [hcontext]
    exact hw c ((w.post_isOpen cx wake c).symm.trans hc)
  bustles h hw := by
    cases h with
    | _ => exact hw

/-- **An open loop has a context**, in every reachable world. -/
theorem Reachable.contextual {w : World} (h : Reachable w) : Contextual w := by
  refine h.rec' (fun plans cx hc => by cases hc) fun w w' hr hw hm => ?_
  refine Contextual.postLaw.loopLaw.move hw hm (fun global c hc => ?_) (fun cx c hc => ?_)
    (fun cx wake w₁ ht c hc => ?_) (fun cx token args verdict hu => hw)
    fun cx wake rest broke hd hu c hc => ?_
  · rw [World.loopOf_openContext] at hc
    rw [World.context?, World.openContext, Store.get?_insert, hr.housed.next_eq]
    split at hc
    · next hn => rw [if_pos hn]; rfl
    · next hn =>
      rw [if_neg hn]
      exact hw c hc
  · rw [World.context?_closeContext]
    have hl := w.closeContext_loops cx
    by_cases hn : c = cx
    · subst hn
      exact absurd hc (w.loopOf_closeContext c).2
    · rw [if_neg hn]
      rw [World.loopOf_modify_of_ne hl hn] at hc
      exact hw c hc
  · obtain ⟨rest, -, rfl⟩ := World.take_cases ht
    rw [World.loopOf_modify_part Loop.isOpen (w.pop_loops cx wake rest) fun _ => rfl] at hc
    exact (Store.isSome_get?_modify ..).trans (hw c hc)
  · rw [World.finish, World.unregister_isOpen] at hc
    exact (Store.isSome_get?_modify ..).trans (hw c hc)

/-- The loop of a context is closed; `out` was taken from it and `inn` was sent to it. -/
structure Over (cx : ContextId) (out inn : List Wake) (w : World) : Prop where
  born : cx.index < w.loops.next
  closed : ¬ (w.loopOf cx).isOpen
  queue : (w.loopOf cx).queue = []
  taken : taken cx w.history = out
  sent : sent cx w.history = inn

/-- Registering and queueing send nothing once a context is gone. -/
theorem Over.postLaw (cx : ContextId) (out inn : List Wake) : PostLaw (Over cx out inn) where
  aside {w w'} h hw := by
    obtain ⟨hb, hc, hq, ht, hs⟩ := hw
    exact ⟨by rwa [h.loops], by rwa [h.loopOf], by rwa [h.loopOf], by rwa [h.taken], by rwa [h.sent]⟩
  register {w} c hw := by
    obtain ⟨hb, hc, hq, ht, hs⟩ := hw
    exact ⟨hb, by rwa [World.register_isOpen], by rwa [World.register_queue], ht, hs⟩
  unregister {w} c hw := by
    obtain ⟨hb, hc, hq, ht, hs⟩ := hw
    exact ⟨hb, by rwa [World.unregister_isOpen], by rwa [World.unregister_queue], ht, hs⟩
  post {w} c wake hw := by
    obtain ⟨hb, hc, hq, ht, hs⟩ := hw
    by_cases ho : (w.loopOf c).isOpen
    · have hn : c ≠ cx := by
        rintro rfl
        exact hc ho
      have hl := World.post_loops_of_isOpen wake ho
      have hh : (w.post c wake).1.history = .sent c wake :: w.history := by
        rw [World.post, if_pos ho]
      refine ⟨by rwa [hl], ?_, ?_, by rwa [hh], ?_⟩
      · rwa [World.post_isOpen]
      · rwa [World.loopOf_modify_of_ne hl (Ne.symm hn)]
      · rwa [hh, sent_sent, if_neg hn]
    · rw [World.post_of_closed wake ho]
      exact ⟨hb, by rwa [World.unregister_isOpen], by rwa [World.unregister_queue], ht, hs⟩
  bustles h hw := by
    obtain ⟨hb, hc, hq, ht, hs⟩ := hw
    cases h with
    | _ => exact ⟨hb, hc, hq, ht, hs⟩

/-- No move brings a context back, and none sends or takes for it. -/
theorem Over.move {w w' : World} {cx : ContextId} {out inn : List Wake} (hw : Over cx out inn w)
    (hm : Move w w') : Over cx out inn w' := by
  obtain ⟨hb, hc, hq, ht, hs⟩ := hw
  refine (Over.postLaw cx out inn).loopLaw.move ⟨hb, hc, hq, ht, hs⟩ hm (fun global => ?_) (fun c => ?_)
    (fun c wake w₁ htake => ?_) (fun c token args verdict hu => ⟨hb, hc, hq, ht, hs⟩)
    fun c wake rest broke hd hu => ?_
  · have hl : (w.openContext global).loopOf cx = w.loopOf cx := by
      rw [World.loopOf_openContext, if_neg (Nat.ne_of_lt hb)]
    exact ⟨Nat.lt_succ_of_lt hb, by rwa [hl], by rwa [hl], ht, hs⟩
  · refine ⟨hb, ?_, ?_, by rwa [taken_closeContext], by rwa [sent_closeContext]⟩
    · by_cases hn : cx = c
      · subst hn
        exact (w.loopOf_closeContext cx).2
      · rwa [World.loopOf_modify_of_ne (w.closeContext_loops c) hn]
    · by_cases hn : cx = c
      · subst hn
        exact (w.loopOf_closeContext cx).1
      · rwa [World.loopOf_modify_of_ne (w.closeContext_loops c) hn]
  · obtain ⟨rest, hqc, rfl⟩ := World.take_cases htake
    have hn : c ≠ cx := by
      rintro rfl
      cases hq.symm.trans hqc
    have hl := w.pop_loops c wake rest
    have hh : (w.pop c wake rest).history = .taken c wake :: w.history := rfl
    refine ⟨hb, ?_, ?_, ?_, hs⟩
    · rwa [World.loopOf_modify_of_ne hl (Ne.symm hn)]
    · rwa [World.loopOf_modify_of_ne hl (Ne.symm hn)]
    · rwa [hh, taken_taken, if_neg hn]
  · refine ⟨hb, ?_, ?_, ht, hs⟩
    · rwa [World.finish, World.unregister_isOpen]
    · rwa [World.finish, World.unregister_queue]

/-- **What is over stays over**. -/
theorem Over.moves {w w' : World} {cx : ContextId} {out inn : List Wake} (hw : Over cx out inn w)
    (hm : Moves w w') : Over cx out inn w' := by
  induction hm with
  | refl => exact hw
  | tail _ hm ih => exact ih.move hm

/-- **The loop of a context that is gone** stays closed. -/
theorem Reachable.over {w : World} (h : Reachable w) {cx : ContextId} (hn : w.context? cx = none)
    (hb : cx.index < w.contexts.next) :
    Over cx (taken cx w.history) (sent cx w.history) w := by
  have hc : ¬ (w.loopOf cx).isOpen := by
    intro ho
    have hs := h.contextual cx ho
    rw [hn] at hs
    cases hs
  exact ⟨h.housed.next_eq ▸ hb, hc, (h.emptied cx hc).1, rfl, rfl⟩

/-! ## Throws -/

namespace World

variable {w w' : World} {cx : ContextId}

/-- The diagnostics of a context. -/
def diagnostics? (w : World) (cx : ContextId) : Option (List String) :=
  (w.context? cx).map (·.diagnostics)

/-- Destroying something ends no context. -/
theorem Destroys.contexts {r} (h : Destroys w r w') : w'.contexts = w.contexts := by
  cases h with
  | channels hc =>
    rw [prune]
    split
    · rfl
    · rfl
  | abandoned hd ha =>
    rw [post]
    split
    · rfl
    · rfl
  | _ => rfl

/-- Releasing ends none either. -/
theorem release_contexts (w : World) (fs : List Farewell) : (w.release fs).contexts = w.contexts := by
  let Same (w w' : World) : Prop := w'.contexts = w.contexts
  have hpre : IsPreorder World Same := { refl := fun _ => rfl, trans := fun _ _ _ h h' => h'.trans h }
  have hsame : Same w (w.release fs) :=
    release_induction (fun _ _ => rfl) (fun w r _ => (w.destroys r).contexts) w fs
  exact hsame

end World

namespace Engine

variable {α β : Type} {run : Runner} {cx : ContextId} {wake : Wake} {w w₁ : World} {v : ForeignValue}
  {text : String}

theorem closeFrame_contexts (w : World) : (closeFrame.after w).contexts = w.contexts :=
  World.release_contexts ..

/-- A description that comes to its end. -/
theorem run_describe (h : w.describe? v = some text) : (describe v).run w = .ok text w := by
  rw [describe, run_get_bind, h]
  rfl

/-- One that does not. -/
theorem run_describe_none (h : w.describe? v = none) : (describe v).run w = .error .exhausted w := by
  rw [describe, run_get_bind, h]
  rfl

/-- What a delivery does with a throw that leaves its work. -/
theorem run_runDelivery_of_thrown {w₀ : World}
    (h : (runWake run cx wake).run w₀ = .error (.thrown v) w₁) :
    ∃ held, (runDelivery run cx wake).run w₀ = (reportException cx v).run { w₁ with held } := by
  obtain ⟨held, hhold⟩ := exists_run_hold v.refs w₁
  rw [run_runDelivery, h]
  exact ⟨held, run_bind_of_ok hhold⟩

/-- **A throw** adds its text to the diagnostics, and the delivery ends like any other. -/
theorem run_deliverNext_of_thrown {rest} (hq : (w.loopOf cx).queue = wake :: rest)
    (h : (runWake run cx wake).run { w.pop cx wake rest with held := [] :: w.held } =
      .error (.thrown v) w₁) (ht : w₁.describe? v = some text) :
    ∃ w', (deliverNext run cx).run w = .ok true w' ∧ ∀ c, w'.diagnostics? c =
      if c = cx then (w₁.diagnostics? c).map (· ++ [text]) else w₁.diagnostics? c := by
  obtain ⟨held, hd⟩ := run_runDelivery_of_thrown h
  let w₂ : World := { w₁ with
    held
    contexts := w₁.contexts.modify cx.index fun c => { c with diagnostics := c.diagnostics ++ [text] } }
  have hr : (runDelivery run cx wake).run { w.pop cx wake rest with held := [] :: w.held } =
      .ok () w₂ := hd.trans (run_bind_of_ok (run_describe ((w₁.describe?_held held v).trans ht)))
  refine ⟨closeFrame.after (w₂.finish cx wake false), ?_, fun c => ?_⟩
  · rw [run_deliverNext hq, run_bind_of_ok (run_deliver_of_ok hr)]
    rfl
  · rw [World.diagnostics?, World.diagnostics?, World.context?, closeFrame_contexts]
    have hf : (w₂.finish cx wake false).contexts =
      (w₁.contexts.modify cx.index fun c => { c with diagnostics := c.diagnostics ++ [text] }).modify
        cx.index fun c => { c with depth := c.depth - 1 } := rfl
    rw [hf, Store.get?_modify, Store.get?_modify, World.context?]
    simp only [ContextId.index_inj]
    split
    · cases w₁.contexts.get? c.index <;> rfl
    · rfl

/-- A throw of something without a text does not come to an end. -/
theorem run_deliverNext_of_endless {rest} (hq : (w.loopOf cx).queue = wake :: rest)
    (h : (runWake run cx wake).run { w.pop cx wake rest with held := [] :: w.held } =
      .error (.thrown v) w₁) (ht : w₁.describe? v = none) :
    ∃ w', (deliverNext run cx).run w = .error .exhausted w' := by
  obtain ⟨held, hd⟩ := run_runDelivery_of_thrown h
  have hr := hd.trans (run_bind_of_error (run_describe_none ((w₁.describe?_held held v).trans ht)))
  refine ⟨closeFrame.after (World.finish { w₁ with held } cx wake true), ?_⟩
  rw [run_deliverNext hq, run_bind_of_error (run_deliver_of_error hr)]

/-- No throw leaves the action. -/
def Contains (m : Engine α) : Prop :=
  ∀ w v w', m.run w ≠ .error (.thrown v) w'

namespace Contains

/-- Actions that contain their throws, one after the other. -/
theorem bind {m : Engine α} {f : α → Engine β} (hm : Contains m) (hf : ∀ a, Contains (f a)) :
    Contains (m >>= f) := by
  intro w v w' h
  cases hr : m.run w with
  | ok a w₁ =>
    rw [run_bind_of_ok hr] at h
    exact hf a w₁ v w' h
  | error e w₁ =>
    rw [run_bind_of_error hr] at h
    cases h
    exact hm w v _ hr

/-- What always succeeds throws nothing. -/
theorem ok {m : Engine α} (h : ∀ w, ∃ a w', m.run w = .ok a w') : Contains m := by
  intro w v w' he
  obtain ⟨a, w₁, ha⟩ := h w
  cases ha.symm.trans he

theorem pure (a : α) : Contains (Pure.pure a : Engine α) :=
  ok fun w => ⟨a, w, rfl⟩

theorem get : Contains (MonadState.get : Engine World) :=
  ok fun w => ⟨w, w, rfl⟩

/-- Stops that are no throws do not count. -/
theorem throw {stop : Stop} (hs : ∀ v, stop ≠ .thrown v) :
    Contains (MonadExcept.throw stop : Engine α) := by
  intro w v w' h
  cases h
  exact hs v rfl

/-- A description does not throw. -/
theorem describe : Contains (Engine.describe v) := by
  intro w v' w' h
  cases ht : w.describe? v with
  | none => cases (run_describe_none ht).symm.trans h
  | some text => cases (run_describe ht).symm.trans h

/-- **A delivery contains its throws**, for they are caught and reported. -/
theorem runDelivery : Contains (Engine.runDelivery run cx wake) := by
  intro w v w' h
  cases hr : (runWake run cx wake).run w with
  | ok u w₁ =>
    rw [run_runDelivery, hr] at h
    cases h
  | error stop w₁ =>
    cases stop with
    | thrown v' =>
      obtain ⟨held, hd⟩ := run_runDelivery_of_thrown hr
      refine bind describe (fun text => ?_) { w₁ with held } v w' (hd.symm.trans h)
      exact ok fun w => ⟨(), _, rfl⟩
    | _ =>
      rw [run_runDelivery, hr] at h
      cases h

/-- So it is with the frame around it. -/
theorem deliver : Contains (Engine.deliver run cx wake) := by
  intro w v w' h
  cases hr : (Engine.runDelivery run cx wake).run { w with held := [] :: w.held } with
  | ok u w₁ => cases (run_deliver_of_ok hr).symm.trans h
  | error stop w₁ =>
    cases (run_deliver_of_error hr).symm.trans h
    exact runDelivery _ _ _ hr

theorem deliverNext : Contains (Engine.deliverNext run cx) := by
  intro w v w' h
  cases hq : (w.loopOf cx).queue with
  | nil => cases (run_deliverNext_nil hq).symm.trans h
  | cons wake rest =>
    rw [run_deliverNext hq] at h
    exact bind deliver (fun _ => pure true) _ _ _ h

/-- So it is with deliveries in a row. -/
theorem deliverMany (count : Nat) : Contains (Engine.deliverMany run cx count) := by
  induction count with
  | zero => exact pure 0
  | succ count ih =>
    refine bind deliverNext fun more => ?_
    split
    · exact bind ih fun _ => pure _
    · exact pure 0

theorem runPending : Contains (Engine.runPending run cx) :=
  bind get fun _ => deliverMany _

/-- So it is with rounds until the loop is idle. -/
theorem pump (rounds : Nat) : Contains (Engine.pump run cx rounds) := by
  induction rounds with
  | zero => exact throw (by simp)
  | succ rounds ih =>
    refine bind runPending fun _ => bind get fun w => ?_
    split
    · exact pure true
    · refine bind deliverNext fun more => ?_
      split
      · exact ih
      · exact pure false

theorem runUntilIdle {waits : Bool} {rounds : Nat} :
    Contains (Engine.runUntilIdle run cx waits rounds) := by
  rw [Engine.runUntilIdle]
  split
  · exact pump rounds
  · exact bind runPending fun _ => bind get fun _ => pure _

end Contains

/-! ## Idle loops -/

/-- Rounds end in idleness only where the loop is idle. -/
theorem isIdle_of_pump {rounds : Nat} {w' : World} (h : (pump run cx rounds).run w = .ok true w') :
    isIdle w' cx := by
  induction rounds generalizing w with
  | zero => cases h
  | succ rounds ih =>
    obtain ⟨-, w₁, -, h⟩ := bind_ok h
    rw [run_get_bind] at h
    split at h
    · next hi =>
      cases h
      exact hi
    · obtain ⟨more, w₂, -, h⟩ := bind_ok h
      split at h
      · exact ih h
      · cases h

/-- A loop that is said to have become idle is idle. -/
theorem isIdle_of_runUntilIdle {waits : Bool} {rounds : Nat} {w' : World}
    (h : (runUntilIdle run cx waits rounds).run w = .ok true w') : isIdle w' cx := by
  rw [runUntilIdle] at h
  split at h
  · exact isIdle_of_pump h
  · obtain ⟨-, w₁, -, h⟩ := bind_ok h
    rw [run_get_bind] at h
    cases hi : isIdle w₁ cx with
    | true =>
      rw [hi] at h
      cases h
      exact hi
    | false =>
      rw [hi] at h
      cases h

end Engine

/-! ## The account -/

/-- How many bridges to a context are not sent yet: those that wait for a deferred, the tickets, and those of
which a thread has begun to queue the wake. -/
def World.unsent (w : World) (cx : ContextId) : Nat :=
  w.waiting (·.context = cx) + w.roots.tickets.count (· = cx) + w.armed cx

/-- What a loop accounts for. -/
structure World.Accounted (w : World) (cx : ContextId) : Prop where
  /-- Each registration is for an unsent bridge, a queued wake or a delivery that is under way. -/
  registrations : (w.loopOf cx).live =
    w.unsent cx + (w.loopOf cx).queue.length + w.inProgress cx
  /-- Deliveries begin in the order of sending, at most one for each wake. -/
  order : taken cx w.history <+: sent cx w.history
  /-- While the loop is open, what was sent and is not taken yet is queued. -/
  rest : (w.loopOf cx).isOpen → sent cx w.history = taken cx w.history ++ (w.loopOf cx).queue
  /-- The handle scopes are those of the deliveries under way and those that the host opened. -/
  depth : ∀ depth, w.depth? cx = some depth → depth = w.inProgress cx + scopes cx w.history
  /-- Between the steps of a session nothing is under way: a registration is for a deferred, a ticket or a
  queued wake, and the handle scopes are those that the host opened. -/
  session : w.OfSession →
    (w.loopOf cx).live = w.waiting (·.context = cx) + w.roots.tickets.count (· = cx) +
      (w.loopOf cx).queue.length ∧
    ∀ depth, w.depth? cx = some depth → depth = scopes cx w.history
  /-- A throw out of the next delivery adds its text to the diagnostics, nothing else, and the
  deliveries after it go on. -/
  throws : ∀ {run : Runner} {wake rest v w₁ depth text}, (w.loopOf cx).queue = wake :: rest →
    (Engine.runWake run cx wake).run { w.pop cx wake rest with held := [] :: w.held } =
      .error (.thrown v) w₁ → w₁.describeWithin depth v = some text →
    ∃ w', (Engine.deliverNext run cx).run w = .ok true w' ∧
      (∀ c, w'.diagnostics? c =
        if c = cx then (w₁.diagnostics? c).map (· ++ [text]) else w₁.diagnostics? c) ∧
      ∀ count, (Engine.deliverMany run cx (count + 1)).run w =
        (Engine.deliverMany run cx count >>= fun more => pure (more + 1)).run w'
  /-- A value without a text at any depth, an error that holds itself, is the one exception: describing
  it does not come to an end. -/
  endless : ∀ {run : Runner} {wake rest v w₁}, (w.loopOf cx).queue = wake :: rest →
    (Engine.runWake run cx wake).run { w.pop cx wake rest with held := [] :: w.held } =
      .error (.thrown v) w₁ → (∀ depth, w₁.describeWithin depth v = none) →
    ∃ w', (Engine.deliverNext run cx).run w = .error .exhausted w'
  /-- No throw of a delivery leaves the loop. -/
  contained : ∀ {run : Runner} {waits rounds v w'},
    (Engine.runPending run cx).run w ≠ .error (.thrown v) w' ∧
      (Engine.runUntilIdle run cx waits rounds).run w ≠ .error (.thrown v) w'
  /-- A loop that says that it became idle has no registration and nothing queued. -/
  idle : ∀ {n waits rounds w'},
    (Engine.runUntilIdle (Session.runner n) cx waits rounds).run w = .ok true w' →
    (w'.loopOf cx).live = 0 ∧ (w'.loopOf cx).queue = []
  /-- Once its context is gone, nothing more is sent or taken; sending only gives the registration
  up. -/
  gone : w.context? cx = none → cx.index < w.contexts.next →
    (∀ w', Moves w w' → (w'.loopOf cx).queue = [] ∧ taken cx w'.history = taken cx w.history ∧
      sent cx w'.history = sent cx w.history) ∧
    ∀ wake, 0 < (w.loopOf cx).live → (w.post cx wake).1.history = w.history ∧
      ((w.post cx wake).1.loopOf cx).live + 1 = (w.loopOf cx).live

/-- Each registration with a loop is for an unsent bridge, a queued wake or a delivery that is under way. -/
theorem Reachable.live_eq {w : World} (h : Reachable w) (cx : ContextId) : (w.loopOf cx).live =
    w.unsent cx + (w.loopOf cx).queue.length + w.inProgress cx := by
  have hs := h.registered.spare_eq cx
  rw [World.spare, World.holders, List.count_nil] at hs
  rw [World.unsent, World.inProgress]
  omega

/-- **A loop accounts for its wakes and registrations**, in every reachable world. -/
theorem Reachable.accounted {w : World} (h : Reachable w) (cx : ContextId) : w.Accounted cx where
  registrations := h.live_eq cx
  order := h.taken_prefix cx
  rest := h.queued.sent_eq cx
  depth := h.scoped.depth_eq cx
  session hsession := by
    obtain ⟨-, hrests⟩ := reachable_session hsession
    have hunderway : w.inProgress cx = 0 := by rw [World.inProgress, hrests.delivering, List.countP_nil]
    have harmed : w.armed cx = 0 := by rw [World.armed, hrests.errands, List.countP_nil]
    refine ⟨?_, fun depth hdepth => ?_⟩
    · rw [h.live_eq, World.unsent, harmed, hunderway, Nat.add_zero, Nat.add_zero]
    · rw [h.scoped.depth_eq cx depth hdepth, hunderway, Nat.zero_add]
  throws hq hw ht := by
    have ht := World.describe?_eq_some_iff.2 ⟨_, ht⟩
    obtain ⟨w', hd, hdiag⟩ := Engine.run_deliverNext_of_thrown hq hw ht
    refine ⟨w', hd, hdiag, fun count => ?_⟩
    rw [Engine.deliverMany, Engine.run_bind_of_ok hd, if_pos rfl]
  endless {run wake rest v w₁} hq hw ht := Engine.run_deliverNext_of_endless hq hw (ht _)
  contained := ⟨Engine.Contains.runPending w _ _, Engine.Contains.runUntilIdle w _ _⟩
  idle {n waits rounds w'} hr := by
    have hidle := Engine.isIdle_of_runUntilIdle hr
    have hactive : Conserves Active (Engine.runUntilIdle (Session.runner n) cx waits rounds) :=
      Conserves.runUntilIdle (Conserves.deliverNext (runs n))
    obtain ⟨hmoves, -⟩ := hactive w h
    rw [Engine.after_of_ok hr] at hmoves
    have hlive : (w'.loopOf cx).live = 0 := by simpa [Engine.isIdle] using hidle
    exact ⟨hlive, ((h.moves hmoves).idle hlive).1⟩
  gone hn hb := by
    have hover := h.over hn hb
    refine ⟨fun w' hm => ?_, fun wake hl => ?_⟩
    · obtain ⟨-, -, hq, ht, hs⟩ := hover.moves hm
      exact ⟨hq, ht, hs⟩
    · rw [World.post_of_closed wake hover.closed]
      refine ⟨rfl, ?_⟩
      rw [World.loopOf_modify_self (w.unregister_loops cx) (World.isSome_loop?_of_live hl)]
      exact Nat.sub_add_cancel hl

namespace Dispatching

/-- A host opens a handle scope, makes two bridges and sends one of them. -/
def sent : World :=
  ((((World.hosted.openScope ⟨0⟩).newTicket "first" ⟨0⟩).newTicket "second" ⟨0⟩).sendTicket "first" ⟨0⟩
    "label" []).1

/-- It is being delivered. -/
def taken : World :=
  (sent.pop ⟨0⟩ (.script "label" []) []).begin ⟨0⟩ (.script "label" [])

theorem reachable_taken : Reachable taken := by
  have hopen : Move World.hosted (World.hosted.openScope ⟨0⟩) := .openScope rfl
  have hfirst : Move (World.hosted.openScope ⟨0⟩)
      ((World.hosted.openScope ⟨0⟩).newTicket "first" ⟨0⟩) := .newTicket "first" rfl
  have hsecond : Move ((World.hosted.openScope ⟨0⟩).newTicket "first" ⟨0⟩)
      (((World.hosted.openScope ⟨0⟩).newTicket "first" ⟨0⟩).newTicket "second" ⟨0⟩) :=
    .newTicket "second" rfl
  have hsent : Move (((World.hosted.openScope ⟨0⟩).newTicket "first" ⟨0⟩).newTicket "second" ⟨0⟩) sent :=
    .sendTicket rfl "label" []
  have htaken : Move sent taken := by
    have ht : sent.take ⟨0⟩ =
      some (.script "label" [], sent.pop ⟨0⟩ (.script "label" []) []) := rfl
    exact .take ht
  exact reachable_hosted.moves
    (((((Relation.ReflTransGen.single hopen).tail hfirst).tail hsecond).tail hsent).tail htaken)

end Dispatching

/-- In the middle of a delivery one bridge is unsent, and the host has a handle scope open. -/
theorem accounted_of_taken : Dispatching.taken.Accounted ⟨0⟩ ∧
    (Dispatching.taken.loopOf ⟨0⟩).live = 2 ∧ Dispatching.taken.unsent ⟨0⟩ = 1 ∧
    Dispatching.taken.inProgress ⟨0⟩ = 1 ∧ Dispatching.taken.depth? ⟨0⟩ = some 2 :=
  ⟨Dispatching.reachable_taken.accounted ⟨0⟩, rfl, by decide, by decide, rfl⟩

end Isthmus
