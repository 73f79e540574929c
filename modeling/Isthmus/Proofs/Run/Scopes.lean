import Isthmus.Proofs.Run.Loops

/-!
# Proofs/Run/Scopes — which handle scopes are open

`Reachable.scoped`: the open handle scopes of a context are those of its deliveries that are under way,
one each, and those that its host opened.  Most moves leave them alone (`World.Steady`); the others open
or close exactly one.
-/

namespace Isthmus

open History

namespace World

variable {w w' : World} {cx c : ContextId}

/-- How many handle scopes of a context are open. -/
def depth? (w : World) (cx : ContextId) : Option Nat :=
  (w.context? cx).map (·.depth)

/-- How many deliveries of a context are under way. -/
def inProgress (w : World) (cx : ContextId) : Nat :=
  w.delivering.countP (·.1 = cx)

/-- A change to one context, in the depth of each. -/
theorem depth?_modify {f : Context → Context} {g : Nat → Nat} (hf : ∀ c, (f c).depth = g c.depth)
    (h : w'.contexts = w.contexts.modify cx.index f) (c : ContextId) :
    w'.depth? c = if cx = c then (w.depth? c).map g else w.depth? c := by
  rw [depth?, depth?, context?, h, Store.get?_modify]
  by_cases hc : cx = c
  · subst hc
    rw [if_pos rfl, if_pos rfl, Option.map_map, Option.map_map, context?]
    congr 1
    exact funext hf
  · rw [if_neg hc, if_neg fun hi => hc (ContextId.index_inj.1 hi).symm]
    rfl

/-! ## Moves that leave the scopes alone -/

/-- No handle scope is opened or closed, and no delivery begins or ends. -/
structure Steady (w w' : World) : Prop where
  next : w'.contexts.next = w.contexts.next
  depth : ∀ cx, w'.depth? cx = w.depth? cx
  delivering : w'.delivering = w.delivering
  scopes : ∀ cx, scopes cx w'.history = scopes cx w.history

namespace Steady

/-- Who leaves contexts and deliveries alone leaves scopes alone. -/
theorem of_contexts (hc : w'.contexts = w.contexts) (hd : w'.delivering = w.delivering)
    (hs : ∀ cx, History.scopes cx w'.history = History.scopes cx w.history) : Steady w w' :=
  ⟨by rw [hc], fun cx => by rw [depth?, depth?, context?, context?, hc], hd, hs⟩

theorem of_eq (hc : w'.contexts = w.contexts) (hd : w'.delivering = w.delivering)
    (hh : w'.history = w.history) : Steady w w' :=
  of_contexts hc hd fun _ => by rw [hh]

theorem trans {w'' : World} (h : Steady w w') (h' : Steady w' w'') : Steady w w'' where
  next := h'.next.trans h.next
  depth cx := (h'.depth cx).trans (h.depth cx)
  delivering := h'.delivering.trans h.delivering
  scopes cx := (h'.scopes cx).trans (h.scopes cx)

/-- **Quiet moves leave scopes alone**. -/
theorem quiet (h : Quiet w w') : Steady w w' where
  next := h.contexts_next
  depth cx := by
    have hd := congrArg (Option.map Prod.snd) (h.contexts cx)
    rwa [Option.map_map, Option.map_map] at hd
  delivering := h.delivering
  scopes cx := by rw [h.history]

/-- Registering and queueing leave scopes alone. -/
theorem posts (h : Posts w w') : Steady w w' := by
  cases h with
  | _ => exact of_contexts rfl rfl fun _ => rfl

theorem begins {wake} (h : Begins w cx wake w') : Steady w w' := by
  cases h with
  | _ => exact of_contexts rfl rfl fun _ => rfl

theorem prune (w : World) (id : InstallationId) : Steady w (w.prune id).1 := by
  rw [World.prune]
  split
  · exact of_eq rfl rfl rfl
  · exact of_contexts rfl rfl fun _ => rfl

/-- So does destroying something. -/
theorem destroys {r} (h : Destroys w r w') : Steady w w' := by
  cases h with
  | @channels id c hc =>
    have hx : Steady w (w.disconnect id c) := of_eq rfl rfl rfl
    exact hx.trans (prune _ _)
  | @abandoned id d k hd ha =>
    have hx : Steady w (w.expire id) := of_contexts rfl rfl fun _ => rfl
    exact hx.trans (posts (.post ..))
  | _ => exact of_eq rfl rfl rfl

theorem setSubscriber (w : World) (id : ChannelsId) (place : Nat) (home : InstallationId)
    (slot : Nat) (callback : Option ForeignValue) :
    Steady w (w.setSubscriber id place home slot callback).1 := by
  unfold World.setSubscriber
  split
  · exact of_eq rfl rfl rfl
  · next c _ =>
    have hx : Steady w (w.switch id place home c.installation none) :=
      of_contexts rfl rfl fun _ => rfl
    exact hx.trans (prune _ home)
  · next c f _ =>
    have hx : Steady w ((w.keepCallback home slot f).switch id place home c.installation
        (some ⟨home, slot⟩)) := of_contexts rfl rfl fun _ => rfl
    exact hx.trans (prune _ home)

/-- A context is given something to carry. -/
theorem carry (w : World) (cx : ContextId) (data : Option ContextData)
    (hc : w'.contexts = w.contexts.modify cx.index ({ · with data })) (hd : w'.delivering = w.delivering)
    (hs : ∀ cx, History.scopes cx w'.history = History.scopes cx w.history) : Steady w w' := by
  refine ⟨by rw [hc, Store.modify], fun c => ?_, hd, hs⟩
  rw [depth?_modify (f := ({ · with data })) (g := id) (fun _ => rfl) hc, Option.map_id, id, ite_self]

theorem install (w : World) (cx : ContextId) (registry : Registry) :
    Steady w (w.install cx registry) :=
  carry w cx _ rfl rfl fun _ => rfl

theorem unbind (w : World) (cx : ContextId) (text : Option String) : Steady w (w.unbind cx text) :=
  carry w cx _ rfl rfl fun _ => rfl

end Steady

end World

/-! ## Deliveries under way -/

namespace World

variable {w : World} {cx : ContextId} {wake : Wake} {rest : List (ContextId × Wake)}

/-- A delivery that begins is in progress. -/
theorem inProgress_pop (w : World) (cx : ContextId) (wake : Wake) (rest : List Wake) (c : ContextId) :
    (w.pop cx wake rest).inProgress c = w.inProgress c + if cx = c then 1 else 0 := by
  change ((cx, wake) :: w.delivering).countP _ = _
  rw [List.countP_cons]
  simp only [decide_eq_true_eq]
  rfl

/-- One that ends is no longer. -/
theorem inProgress_finish (hd : w.delivering = (cx, wake) :: rest) (broke : Bool) (c : ContextId) :
    (w.finish cx wake broke).inProgress c + (if cx = c then 1 else 0) = w.inProgress c := by
  change w.delivering.tail.countP _ + _ = w.delivering.countP _
  rw [hd, List.tail_cons, List.countP_cons]
  simp only [decide_eq_true_eq]

end World

/-! ## The law -/

/-- The handle scopes of a context are those of its deliveries and of its host; a context that is yet to
come has neither. -/
structure Scoped (w : World) : Prop where
  depth_eq : ∀ cx depth, w.depth? cx = some depth →
    depth = w.inProgress cx + scopes cx w.history
  unborn : ∀ cx, w.contexts.next ≤ cx.index → w.inProgress cx = 0 ∧ scopes cx w.history = 0

namespace Scoped

variable {w w' : World} {cx : ContextId}

/-- The account of scopes is kept by what leaves them alone. -/
theorem steady (hw : Scoped w) (h : World.Steady w w') : Scoped w' where
  depth_eq c depth hd := by
    rw [h.depth] at hd
    rw [World.inProgress, h.delivering, h.scopes]
    exact hw.depth_eq c depth hd
  unborn c hc := by
    rw [h.next] at hc
    rw [World.inProgress, h.delivering, h.scopes]
    exact hw.unborn c hc

/-- A new context has no scopes. -/
theorem openContext (hw : Scoped w) (global : ObjectId) : Scoped (w.openContext global) where
  depth_eq c depth hd := by
    rw [World.depth?, World.context?, World.openContext, Store.get?_insert] at hd
    split at hd
    · next hc =>
      cases hd
      obtain ⟨hp, hs⟩ := hw.unborn c (Nat.le_of_eq hc.symm)
      exact (congrArg₂ (· + ·) hp hs).symm
    · exact hw.depth_eq c depth hd
  unborn c hc := hw.unborn c (Nat.le_of_succ_le hc)

/-- A context that ends takes its scopes along. -/
theorem closeContext (hw : Scoped w) (cx : ContextId) : Scoped (w.closeContext cx).1 := by
  have hs (c : ContextId) : scopes c (w.closeContext cx).1.history = scopes c w.history :=
    skip_dropped (f := scopes c) (fun _ _ => rfl) ..
  refine ⟨fun c depth hd => ?_, fun c hc => ?_⟩
  · rw [World.depth?, World.context?_closeContext] at hd
    split at hd
    · cases hd
    · rw [hs]
      exact hw.depth_eq c depth hd
  · rw [hs]
    exact hw.unborn c hc

/-- The scopes of one context change. -/
theorem modify (hw : Scoped w) {f : Context → Context} {g : Nat → Nat}
    (hf : ∀ c, (f c).depth = g c.depth) (hc : w'.contexts = w.contexts.modify cx.index f)
    (hx : cx.index < w.contexts.next)
    (hg : g (w.inProgress cx + scopes cx w.history) = w'.inProgress cx + scopes cx w'.history)
    (hn : ∀ c, cx ≠ c → w'.inProgress c = w.inProgress c ∧
      scopes c w'.history = scopes c w.history) : Scoped w' where
  depth_eq c depth hd := by
    rw [World.depth?_modify hf hc] at hd
    split at hd
    · next he =>
      subst he
      obtain ⟨before, hb, rfl⟩ := Option.map_eq_some_iff.1 hd
      rw [← hg, hw.depth_eq cx before hb]
    · next he =>
      obtain ⟨hp, hs⟩ := hn c he
      rw [hp, hs]
      exact hw.depth_eq c depth hd
  unborn c hle := by
    rw [hc] at hle
    have hle : w.contexts.next ≤ c.index := hle
    have he : cx ≠ c := by
      rintro rfl
      exact absurd hx (Nat.not_lt.2 hle)
    obtain ⟨hp, hs⟩ := hn c he
    rw [hp, hs]
    exact hw.unborn c hle

/-- A delivery opens a scope. -/
theorem pop (hw : Scoped w) (hx : cx.index < w.contexts.next) (wake : Wake) (rest : List Wake) :
    Scoped (w.pop cx wake rest) := by
  refine hw.modify (f := fun c => { c with depth := c.depth + 1 }) (g := (· + 1)) (fun _ => rfl) rfl hx ?_
    fun c hc => ⟨?_, rfl⟩
  · rw [World.inProgress_pop, if_pos rfl]
    exact Nat.add_right_comm ..
  · rw [World.inProgress_pop, if_neg hc, Nat.add_zero]

/-- It closes its scope in the end. -/
theorem finish (hw : Scoped w) {wake rest} (hd : w.delivering = (cx, wake) :: rest) (broke : Bool) :
    Scoped (w.finish cx wake broke) := by
  have hpx := World.inProgress_finish hd broke cx
  rw [if_pos rfl] at hpx
  have hx : cx.index < w.contexts.next := by
    refine Nat.lt_of_not_le fun hn => ?_
    have := (hw.unborn cx hn).1
    omega
  refine hw.modify (f := fun c => { c with depth := c.depth - 1 }) (g := (· - 1)) (fun _ => rfl) rfl hx ?_
    fun c hc => ⟨?_, rfl⟩
  · change w.inProgress cx + scopes cx w.history - 1 = _ + scopes cx w.history
    omega
  · rw [← World.inProgress_finish hd broke c, if_neg hc, Nat.add_zero]

/-- A scope that the host opens counts for the host. -/
theorem openScope (hw : Scoped w) (hx : cx.index < w.contexts.next) : Scoped (w.openScope cx) := by
  have hs (c : ContextId) : scopes c (w.openScope cx).history =
      scopes c w.history + if cx = c then 1 else 0 := rfl
  refine hw.modify (f := fun c => { c with depth := c.depth + 1 }) (g := (· + 1)) (fun _ => rfl) rfl hx ?_
    fun c hc => ⟨rfl, ?_⟩
  · rw [hs, if_pos rfl]
    rfl
  · rw [hs, if_neg hc, Nat.add_zero]

/-- One that it closes counts no longer. -/
theorem closeScope (hw : Scoped w) (h : 0 < scopes cx w.history) : Scoped (w.closeScope cx) := by
  have hs (c : ContextId) : scopes c (w.closeScope cx).history =
      scopes c w.history - if cx = c then 1 else 0 := rfl
  have hx : cx.index < w.contexts.next := by
    refine Nat.lt_of_not_le fun hn => ?_
    have := (hw.unborn cx hn).2
    omega
  refine hw.modify (f := fun c => { c with depth := c.depth - 1 }) (g := (· - 1)) (fun _ => rfl) rfl hx ?_
    fun c hc => ⟨rfl, ?_⟩
  · rw [hs, if_pos rfl]
    exact Nat.add_sub_assoc h _
  · rw [hs, if_neg hc, Nat.sub_zero]

end Scoped

/-- **The open handle scopes of a context** are those of its deliveries and those of its host. -/
theorem Reachable.scoped {w : World} (h : Reachable w) : Scoped w := by
  refine h.rec' (fun plans => ⟨fun cx depth hd => (by cases hd), fun cx _ => ⟨rfl, rfl⟩⟩)
    fun w w' hr hw hm => ?_
  have hlt {cx : ContextId} (hs : (w.loop? cx).isSome) : cx.index < w.contexts.next :=
    hr.housed.next_eq ▸ World.lt_next_of_loop? hs
  have hlt' {cx : ContextId} (hs : (w.context? cx).isSome) : cx.index < w.contexts.next := by
    obtain ⟨c, hc⟩ := Option.isSome_iff_exists.1 hs
    exact Store.lt_next_of_get? hc
  cases hm with
  | quiet h => exact hw.steady (.quiet h)
  | destroy r _ => exact hw.steady (.destroys (w.destroys r))
  | openContext global => exact hw.openContext global
  | closeContext cx => exact hw.closeContext cx
  | install registry h => exact hw.steady (.install w _ _)
  | unbind cx text => exact hw.steady (.unbind w _ _)
  | openScope h => exact hw.openScope (hlt' h)
  | closeScope h => exact hw.closeScope h
  | determine h =>
    obtain ⟨d, -, -, -, hp⟩ := World.determine_posts h
    refine hw.steady (.trans ?_ (.posts hp))
    exact .of_contexts rfl rfl fun _ => rfl
  | promise hb hd =>
    obtain ⟨-, hp⟩ | ⟨-, hp⟩ := w.promise_posts _ _ _ hd
    · refine hw.steady (.trans ?_ (.posts hp))
      exact .of_contexts rfl rfl fun _ => rfl
    · refine hw.steady (.trans ?_ (.posts hp))
      exact .of_contexts rfl rfl fun _ => rfl
  | setSubscriber id place callback hb => exact hw.steady (.setSubscriber ..)
  | aim args h => exact hw.steady (.posts (.aim w ..))
  | arm h => exact hw.steady (.posts (.arm w ..))
  | launch h => exact hw.steady (.posts (.launch w ..))
  | take h =>
    obtain ⟨rest, hq, rfl⟩ := World.take_cases h
    have hs := World.isSome_loop?_of_queue (by rw [hq]; exact List.cons_ne_nil _ _)
    exact (hw.pop (hlt hs) _ rest).steady (.begins (World.begins ..))
  | finish hd hu hs => exact hw.finish hd _
  | newTicket name h => exact hw.steady (.posts (.newTicket w ..))
  | sendTicket h label body => exact hw.steady (.posts (.sendTicket w ..))
  | dropTicket h => exact hw.steady (.posts (.dropTicket w ..))
  | keepClass | newDeferred | connect | hear | settle | settleOwn =>
    exact hw.steady (.of_contexts rfl rfl fun _ => rfl)

end Isthmus
