import Isthmus.Proofs.Run.Bridges
import Isthmus.Proofs.Run.Deferreds
import Isthmus.Proofs.Run.Registrations

/-!
# Proofs/Run/Slots — what becomes of a parked promise

A promise that is parked in a slot waits for one of three things: its deferred, the delivery of the wake
that its deferred had queued, or nothing at all, because another promise took its place as the
continuation of the deferred.  `Reachable.claimed` says that this is exact, on a context that was given a
bridge once: for each slot the parked promises are as many as the things they wait for.
-/

namespace Isthmus

open History

/-- The wake settles the promise in the slot. -/
def Wake.settles (slot : Nat) : Wake → Bool
  | .settle s _ _ => s = slot
  | _ => false

/-- A wake of another kind settles no slot. -/
theorem Wake.settles_of_ne {wake : Wake} (h : ∀ slot status v, wake ≠ .settle slot status v)
    (slot : Nat) : wake.settles slot = false := by
  cases wake with
  | settle s status v => exact absurd rfl (h s status v)
  | event token args => rfl
  | script label body => rfl

/-- The errand is to queue a wake for the settlement. -/
def Errand.settles (k : Settlement) : Errand → Bool
  | .armed cx wake => cx = k.context && wake.settles k.slot
  | .aimed .. => false

namespace World

variable {w w' : World} {cx : ContextId}

/-- The slots of the parked promises of a context. -/
def slots (w : World) (cx : ContextId) : List Nat :=
  match w.bridge? cx with
  | some (_, i) => i.resolvers.map (·.1)
  | none => []

/-- How many wakes are queued, or are to be queued, for a settlement. -/
def coming (w : World) (k : Settlement) : Nat :=
  (w.loopOf k.context).queue.countP (Wake.settles k.slot) + w.errands.countP (Errand.settles k)

/-- How many things a settlement is still expected from, among them a deferred that has forgotten it. -/
def due (w : World) (k : Settlement) : Nat :=
  w.waiting (· = k) + w.coming k + (lost k w.history).toNat

/-- The slots of a bridged context are those of its installation. -/
theorem slots_of_bridge? {id i} (h : w.bridge? cx = some (id, i)) :
    w.slots cx = i.resolvers.map (·.1) := by
  rw [slots, h]

/-- A context without a bridge has no slots. -/
theorem slots_of_none (h : w.bridge? cx = none) : w.slots cx = [] := by
  rw [slots, h]

theorem slots_of_data? (h : ∀ id, w.data? cx ≠ some (.bridge id)) : w.slots cx = [] :=
  slots_of_none (Option.eq_none_iff_forall_ne_some.2 fun b hb => h b.1 (bridge?_eq_some.1 hb).1)

/-- A new bridge has no promises. -/
theorem slots_install (w : World) (hc : (w.context? cx).isSome) (registry : Registry) :
    (w.install cx registry).slots cx = [] := by
  have hd : (w.install cx registry).data? cx = some (.bridge ⟨w.installations.next⟩) := by
    rw [data?_install hc, if_pos rfl]
  have hi : (w.install cx registry).installation? ⟨w.installations.next⟩ = some { registry } := by
    rw [installation?, install, Store.get?_insert, if_pos rfl]
  exact slots_of_bridge? (bridge?_eq_some.2 ⟨hd, hi⟩)

/-- Which settlements are coming hangs on errands and the queue alone. -/
theorem coming_congr {k : Settlement} (he : w'.errands = w.errands)
    (h : (w'.loopOf k.context).queue = (w.loopOf k.context).queue) : w'.coming k = w.coming k := by
  rw [coming, h, he, coming]

/-- Registrations settle nothing. -/
theorem coming_register (w : World) (cx : ContextId) (k : Settlement) :
    (w.register cx).coming k = w.coming k :=
  coming_congr rfl (register_queue ..)

theorem coming_unregister (w : World) (cx : ContextId) (k : Settlement) :
    (w.unregister cx).coming k = w.coming k :=
  coming_congr rfl (unregister_queue ..)

/-- A posted wake comes for its slot. -/
theorem coming_post (hc : (w.loopOf cx).isOpen) (wake : Wake) (k : Settlement) :
    (w.post cx wake).1.coming k =
      w.coming k + if cx = k.context ∧ wake.settles k.slot then 1 else 0 := by
  have hl := post_loops_of_isOpen wake hc
  rw [coming, coming, post_errands]
  by_cases h : k.context = cx
  · rw [h, loopOf_modify_self hl (isSome_loop?_of_isOpen hc), List.countP_append,
      List.countP_singleton, Nat.add_right_comm]
    by_cases hs : wake.settles k.slot
    · rw [if_pos hs, if_pos ⟨rfl, hs⟩]
    · rw [if_neg hs, if_neg fun h => hs h.2]
  · rw [loopOf_modify_of_ne hl h, if_neg fun hh => h hh.1.symm, Nat.add_zero]

/-- A posted settlement comes for its slot and no other. -/
theorem coming_post_settle (k k' : Settlement)
    (hc : k'.context = k.context → (w.loopOf k.context).isOpen) (status : DeferredStatus)
    (v : NativeValue) : (w.post k.context (.settle k.slot status v)).1.coming k' =
      w.coming k' + if k = k' then 1 else 0 := by
  by_cases ho : (w.loopOf k.context).isOpen
  · rw [coming_post ho]
    obtain ⟨c, slot⟩ := k
    obtain ⟨c', slot'⟩ := k'
    simp only [Wake.settles, decide_eq_true_eq, Settlement.mk.injEq]
  · have hn : k ≠ k' := fun h => ho (hc (h ▸ rfl))
    rw [post_of_closed _ ho, if_neg hn]
    exact coming_congr rfl (unregister_queue ..)

/-- What is queued for a context that closes is dropped. -/
theorem coming_closeContext_le (w : World) (cx : ContextId) (slot : Nat) :
    (w.closeContext cx).1.coming ⟨cx, slot⟩ ≤ w.coming ⟨cx, slot⟩ := by
  have hl := w.closeContext_loops cx
  by_cases hs : (w.loop? cx).isSome
  · rw [coming, loopOf_modify_self hl hs]
    exact Nat.add_le_add_right (Nat.zero_le _) _
  · have hn : w.loops.get? cx.index = none := Option.not_isSome_iff_eq_none.1 hs
    rw [Store.modify_of_get?_none _ hn] at hl
    exact Nat.le_of_eq (coming_congr rfl (by rw [loopOf_congr hl]))

/-- A wake that is queued comes from then on out of the queue. -/
theorem coming_launch {before after : List Errand} {wake : Wake}
    (h : w.errands = before ++ .armed cx wake :: after) (k : Settlement)
    (ho : Errand.settles k (.armed cx wake) → (w.loopOf cx).isOpen) :
    (w.launch before after cx wake).1.coming k = w.coming k := by
  have hw : World.coming { w with errands := before ++ after } k +
      (if Errand.settles k (.armed cx wake) then 1 else 0) = w.coming k := by
    rw [coming, coming, h, List.countP_append, List.countP_append, List.countP_cons]
    simp only [Nat.add_assoc]
    rfl
  by_cases hc : (w.loopOf cx).isOpen
  · have hc' : (World.loopOf { w with errands := before ++ after } cx).isOpen := hc
    rw [launch_of_isOpen hc, coming_post hc', ← hw]
    simp only [Errand.settles, Bool.and_eq_true, decide_eq_true_eq]
  · rw [if_neg fun hs => hc (ho hs), Nat.add_zero] at hw
    rw [launch_of_closed hc, coming_unregister, ← hw]
    rfl

/-- A wake that settles nothing makes no difference. -/
theorem coming_post_of_not (cx : ContextId) {wake : Wake} (h : ∀ slot, wake.settles slot = false)
    (k : Settlement) : (w.post cx wake).1.coming k = w.coming k := by
  by_cases hc : (w.loopOf cx).isOpen
  · rw [coming_post hc, h, if_neg (fun hh => Bool.false_ne_true hh.2), Nat.add_zero]
  · rw [post_of_closed wake hc]
    exact coming_congr rfl (unregister_queue ..)

/-! ## Changes of slots -/

/-- What a context carries, and the promises parked in it, decide about its slots. -/
theorem slots_congr (hd : w'.data? cx = w.data? cx)
    (hi : ∀ id, w.data? cx = some (.bridge id) →
      (w'.installation? id).map (·.resolvers) = (w.installation? id).map (·.resolvers)) :
    w'.slots cx = w.slots cx := by
  cases hb : w.bridge? cx with
  | none =>
    have hb' : w'.bridge? cx = none := by
      refine Option.eq_none_iff_forall_ne_some.2 fun b h => ?_
      obtain ⟨hd', hi'⟩ := bridge?_eq_some.1 h
      rw [hd] at hd'
      have := hi b.1 hd'
      rw [hi'] at this
      obtain ⟨i, hi, -⟩ := Option.map_eq_some_iff.1 this.symm
      cases hb.symm.trans (bridge?_eq_some.2 ⟨hd', hi⟩)
    rw [slots_of_none hb, slots_of_none hb']
  | some b =>
    obtain ⟨hd', hi'⟩ := bridge?_eq_some.1 hb
    have := hi b.1 hd'
    rw [hi'] at this
    obtain ⟨i, hi, hr⟩ := Option.map_eq_some_iff.1 this
    rw [slots_of_bridge? hb, slots_of_bridge? (bridge?_eq_some.2 ⟨hd.trans hd', hi⟩), hr]

/-- Registering and queueing park nothing. -/
theorem slots_posts (h : Posts w w') (cx : ContextId) : w'.slots cx = w.slots cx :=
  slots_congr h.carries.1 fun id _ => by rw [installation?_congr h.installations]

/-- They leave what waits for deferreds as it is. -/
theorem waiting_posts (h : Posts w w') (p : Settlement → Bool) : w'.waiting p = w.waiting p := by
  cases h with
  | _ => rfl

theorem lost_posts (h : Posts w w') (k : Settlement) : lost k w'.history = lost k w.history := by
  cases h with
  | _ => rfl

/-- The slots of a context after a change to its installation. -/
theorem slots_modify_self {home i} {f : Installation → Installation}
    (h : w'.installations = w.installations.modify home.index f)
    (hb : w.bridge? cx = some (home, i)) (hd : w'.data? cx = w.data? cx) :
    w'.slots cx = (f i).resolvers.map (·.1) := by
  obtain ⟨hd', hi⟩ := bridge?_eq_some.1 hb
  have hi' := installation?_modify h hi
  rw [if_pos rfl] at hi'
  exact slots_of_bridge? (bridge?_eq_some.2 ⟨hd.trans hd', hi'⟩)

/-- A change to an installation is not seen in the slots of other contexts. -/
theorem slots_modify_of_ne {home : InstallationId} {f : Installation → Installation}
    (h : w'.installations = w.installations.modify home.index f)
    (hn : w.data? cx ≠ some (.bridge home)) (hd : w'.data? cx = w.data? cx) :
    w'.slots cx = w.slots cx := by
  refine slots_congr hd fun id hid => ?_
  have hne : id.index ≠ home.index := fun he => hn (InstallationId.index_inj.1 he ▸ hid)
  rw [installation?, h, Store.get?_modify, if_neg hne]
  rfl

/-- Neither is one that leaves the parked promises alone. -/
theorem slots_modify (home : InstallationId) (f : Installation → Installation)
    (h : w'.installations = w.installations.modify home.index f)
    (hf : ∀ i, (f i).resolvers = i.resolvers) (hd : w'.data? cx = w.data? cx) :
    w'.slots cx = w.slots cx := by
  refine slots_congr hd fun id _ => ?_
  rw [installation?, h, Store.get?_modify]
  split
  · rw [Option.map_map]
    exact Option.map_congr fun i _ => hf i
  · rfl

/-- Forgetting callbacks parks nothing and settles nothing. -/
theorem slots_prune (w : World) (id : InstallationId) (cx : ContextId) :
    (w.prune id).1.slots cx = w.slots cx := by
  rw [prune]
  split
  · rfl
  · change (w.forget id).slots cx = w.slots cx
    exact slots_modify id _ (w.forget_installations id) (fun _ => rfl) rfl

/-! ## The balance -/

/-- The promises parked in a slot are as many as the things that they wait for. -/
def Claimed (w : World) (cx : ContextId) : Prop :=
  ∀ slot, (w.slots cx).count slot = w.due ⟨cx, slot⟩

/-- A wake that is taken was coming. -/
theorem coming_pop {wake : Wake} {rest : List Wake} (hq : (w.loopOf cx).queue = wake :: rest)
    (k : Settlement) : (w.pop cx wake rest).coming k +
      (if k.context = cx ∧ wake.settles k.slot then 1 else 0) = w.coming k := by
  have hl := w.pop_loops cx wake rest
  have hs : (w.loop? cx).isSome := isSome_loop?_of_queue (by rw [hq]; exact List.cons_ne_nil _ _)
  have he : (w.pop cx wake rest).errands = w.errands := rfl
  rw [coming, coming, he]
  by_cases hc : k.context = cx
  · rw [hc, loopOf_modify_self hl hs, hq, List.countP_cons, Nat.add_right_comm]
    simp only [true_and]
  · rw [loopOf_modify_of_ne hl hc, if_neg fun h => hc h.1, Nat.add_zero]

/-- A slot that is emptied is in no entry any more. -/
theorem count_filter_slot {α : Type} (es : List (Nat × α)) (s slot : Nat) :
    ((es.filter (·.1 ≠ s)).map (·.1)).count slot =
      if s = slot then 0 else (es.map (·.1)).count slot := by
  have h : (es.filter (·.1 ≠ s)).map (·.1) = (es.map (·.1)).filter (· ≠ s) := by
    rw [List.filter_map]
    rfl
  rw [h]
  split
  · next hs =>
    subst hs
    exact List.count_eq_zero.2 fun hm => of_decide_eq_true (List.mem_filter.1 hm).2 rfl
  · next hs => exact List.count_filter (decide_eq_true (Ne.symm hs))

/-- A slot that is taken up has a promise. -/
theorem parked?_of_mem {home i} {slot : Nat} (hi : w.installation? home = some i)
    (hs : slot ∈ i.resolvers.map (·.1)) : ∃ p, w.parked? home slot = some p := by
  obtain ⟨e, he, rfl⟩ := List.mem_map.1 hs
  have hf : (i.resolvers.find? (·.1 = e.1)).isSome :=
    List.find?_isSome.2 ⟨e, he, decide_eq_true rfl⟩
  obtain ⟨e', he'⟩ := Option.isSome_iff_exists.1 hf
  exact ⟨e'.2, by rw [parked?, hi, Option.bind_some, he', Option.map_some]⟩

/-- What is found in a slot was parked there. -/
theorem mem_of_parked? {home i p} {slot : Nat} (hi : w.installation? home = some i)
    (hp : w.parked? home slot = some p) : ∃ e ∈ i.resolvers, e.1 = slot ∧ e.2 = p := by
  rw [parked?, hi, Option.bind_some] at hp
  obtain ⟨e, he, rfl⟩ := Option.map_eq_some_iff.1 hp
  have hs := List.find?_some he
  exact ⟨e, List.mem_of_find?_eq_some he, of_decide_eq_true hs, rfl⟩

/-- A promise for a complete deferred has its wake queued at once. -/
theorem coming_promise {c : ContextId} (home : InstallationId) (slot : Nat) {id d}
    (hd : w.deferred? id = some d) (hc : (w.loopOf c).isOpen) (k : Settlement) :
    (w.promise c home slot id d).1.coming k =
      w.coming k + if d.status ≠ .pending ∧ ⟨c, slot⟩ = k then 1 else 0 := by
  obtain ⟨hp, -, h⟩ | ⟨hp, old, -, h⟩ | ⟨hp, h⟩ :=
    await_cases (w := w.park c home slot id) hd ⟨c, slot⟩
  · rw [promise, h, coming_register, if_neg fun h => h.1 hp]
    rfl
  · rw [promise, h, coming_unregister, coming_register, if_neg fun h => h.1 hp]
    rfl
  · have hs := coming_post_settle (w := (w.park c home slot id).register c) ⟨c, slot⟩ k
      (fun _ => (register_isOpen ..).trans hc) d.status d.value
    rw [promise, h, send, hs, coming_register]
    simp only [hp, ne_eq, not_false_eq_true, true_and]
    rfl

end World

namespace History

/-- A slot is lost when the same deferred is converted again while it is pending. -/
theorem lost_promised (k : Settlement) (k' : Settlement) (p : ObjectId) (d : DeferredId)
    (h : List Occurrence) : lost k (.promised k' p d :: h) =
      (lost k h || (latest d h = some k && (outcome? d h).isNone)) := rfl

end History

namespace World

variable {w w' : World} {cx : ContextId}

/-- The parked promises of a context, and all that they wait for, stay as they are. -/
structure Level (w w' : World) (cx : ContextId) : Prop where
  slots : w'.slots cx = w.slots cx
  waiting : ∀ p, w'.waiting p = w.waiting p
  coming : ∀ slot, w'.coming ⟨cx, slot⟩ = w.coming ⟨cx, slot⟩
  lost : ∀ k, lost k w'.history = lost k w.history

/-- What parked promises wait for. -/
def awaited (w : World) (cx : ContextId) :=
  (fun p => w.waiting p, fun slot => w.coming ⟨cx, slot⟩, fun k => History.lost k w.history)

namespace Level

/-- Changes outside of slots and what is awaited leave the balance alone. -/
theorem of_slots (hs : w'.slots cx = w.slots cx) (h : w'.awaited cx = w.awaited cx) :
    Level w w' cx := by
  simp only [awaited, Prod.mk.injEq] at h
  exact ⟨hs, congrFun h.1, congrFun h.2.1, congrFun h.2.2⟩

/-- So do those that keep each of its parts. -/
theorem of_waiting (hw : ∀ p, w'.waiting p = w.waiting p) (hs : w'.slots cx = w.slots cx)
    (hc : ∀ slot, w'.coming ⟨cx, slot⟩ = w.coming ⟨cx, slot⟩)
    (hl : ∀ k, History.lost k w'.history = History.lost k w.history) : Level w w' cx :=
  ⟨hs, hw, hc, hl⟩

theorem refl (w : World) (cx : ContextId) : Level w w cx :=
  .of_slots rfl rfl

/-- Changes that leave the balance alone follow each other. -/
theorem trans {w'' : World} (h : Level w w' cx) (h' : Level w' w'' cx) : Level w w'' cx where
  slots := h'.slots.trans h.slots
  waiting p := (h'.waiting p).trans (h.waiting p)
  coming slot := (h'.coming slot).trans (h.coming slot)
  lost k := (h'.lost k).trans (h.lost k)

/-- The same settlements are due. -/
theorem due (h : Level w w' cx) (slot : Nat) : w'.due ⟨cx, slot⟩ = w.due ⟨cx, slot⟩ := by
  rw [World.due, World.due, h.waiting, h.coming, h.lost]

/-- The balance holds as before. -/
theorem claimed (h : Level w w' cx) (hw : w.Claimed cx) : w'.Claimed cx := fun slot => by
  rw [h.slots, h.due, hw slot]

/-- Nothing is queued, and what is left of the world does not matter here. -/
theorem of_posts (h : Posts w w')
    (hc : ∀ slot, w'.coming ⟨cx, slot⟩ = w.coming ⟨cx, slot⟩) : Level w w' cx where
  slots := slots_posts h cx
  waiting := waiting_posts h
  coming := hc
  lost := lost_posts h

theorem prune (w : World) (id : InstallationId) (cx : ContextId) : Level w (w.prune id).1 cx where
  slots := slots_prune w id cx
  waiting p := by rw [World.waiting, prune_deferreds, World.waiting]
  coming slot := coming_congr (Aside.prune w id).errands (by rw [(Aside.prune w id).loopOf])
  lost k := by
    rw [World.prune]
    split
    · rfl
    · rfl

/-- Quiet moves leave the balance alone. -/
theorem quiet (h : Quiet w w') (cx : ContextId) : Level w w' cx where
  slots := slots_congr (h.data? cx) fun id _ => by rw [installation?_congr h.installations]
  waiting p := by rw [World.waiting, h.deferreds, World.waiting]
  coming slot := coming_congr h.errands (by rw [loopOf_congr h.loops])
  lost k := by rw [h.history]

/-- A new context has no slots. -/
theorem openContext (w : World) (global : ObjectId) (cx : ContextId) :
    Level w (w.openContext global) cx where
  slots := slots_congr (data?_openContext ..) fun _ _ => rfl
  waiting _ := rfl
  lost _ := rfl
  coming slot := by
    refine coming_congr rfl ?_
    rw [loopOf_openContext]
    split
    · next h =>
      have hl : w.loop? cx = none := by
        rw [loop?, h]
        exact Store.get?_next _
      rw [loopOf, hl]
      rfl
    · rfl

/-- The end of another context is not seen in the balance. -/
theorem closeContext (w : World) {cx c : ContextId} (hc : cx ≠ c) :
    Level w (w.closeContext c).1 cx where
  slots := slots_congr (data?_closeContext_of_ne hc) fun _ _ => rfl
  waiting _ := rfl
  coming slot := coming_congr rfl (by rw [loopOf_modify_of_ne (w.closeContext_loops c) hc])
  lost k := skip_dropped (f := History.lost k) (fun _ _ => rfl) ..

theorem keepClass (w : World) (id : InstallationId) (e : ClassKey × ObjectId) (cx : ContextId) :
    Level w { w with
      installations := w.installations.modify id.index fun i =>
        { i with classes := i.classes ++ [e] } } cx :=
  .of_slots
    (slots_modify id (fun i => { i with classes := i.classes ++ [e] }) rfl (fun _ => rfl) rfl) rfl

/-- Installing a bridge elsewhere is not seen in the balance. -/
theorem install (w : World) (hb : Bridged w) {cx c : ContextId} (hc : cx ≠ c)
    (registry : Registry) : Level w (w.install c registry) cx := by
  refine .of_slots (slots_congr (data?_modify_of_ne (w.install_contexts c registry) hc)
    fun id hid => ?_) rfl
  obtain ⟨i, hi, -⟩ := hb.installed hid
  rw [installation?, World.install, Store.get?_insert,
    if_neg (Nat.ne_of_lt (Store.lt_next_of_get? hi))]
  rfl

theorem unbind (w : World) {cx c : ContextId} (hc : cx ≠ c) (text : Option String) :
    Level w (w.unbind c text) cx :=
  .of_slots (slots_congr (data?_modify_of_ne (w.unbind_contexts c text) hc) fun _ _ => rfl) rfl

theorem switch (w : World) (id : ChannelsId) (place : Nat) (home owner : InstallationId)
    (token : Option Token) (cx : ContextId) : Level w (w.switch id place home owner token) cx :=
  .of_slots rfl rfl

theorem disconnect (w : World) (id : ChannelsId) (c : Channels) (cx : ContextId) :
    Level w (w.disconnect id c) cx :=
  .of_slots rfl rfl

/-- Subscriptions are no part of the balance. -/
theorem setSubscriber (w : World) (id : ChannelsId) (place : Nat) (home : InstallationId)
    (slot : Nat) (callback : Option ForeignValue) (cx : ContextId) :
    Level w (w.setSubscriber id place home slot callback).1 cx := by
  unfold World.setSubscriber
  split
  · exact refl w cx
  · exact (switch ..).trans (prune ..)
  · next c f _ =>
    have hk : Level w (w.keepCallback home slot f) cx := .of_slots
      (slots_modify home _ (w.keepCallback_installations home slot f) (fun _ => rfl) rfl) rfl
    exact (hk.trans (switch ..)).trans (prune ..)

/-- A firing settles nothing. -/
theorem arm {before after : List Errand} {c token args}
    (h : w.errands = before ++ .aimed c token args :: after) (cx : ContextId) :
    Level w (w.arm before after c (.event token args)) cx := by
  refine of_posts (.arm w ..) fun slot => ?_
  rw [World.arm, coming_register, World.coming, World.coming, h, List.countP_append,
    List.countP_append, List.countP_cons, List.countP_cons]
  simp only [Errand.settles, Wake.settles, Bool.and_false]
  rfl

theorem newTicket (w : World) (name : String) (c cx : ContextId) :
    Level w (w.newTicket name c) cx := by
  refine of_posts (.newTicket w name c) fun slot => ?_
  unfold World.newTicket
  split
  · rw [coming_unregister, coming_register]
    rfl
  · rw [coming_register]
    rfl

/-- The end of a delivery settles nothing. -/
theorem finish (w : World) (c : ContextId) (wake : Wake) (broke : Bool) (cx : ContextId) :
    Level w (w.finish c wake broke) cx where
  slots := slots_congr (data?_finish ..) fun _ _ => rfl
  waiting _ := rfl
  lost _ := rfl
  coming slot := coming_congr rfl (by rw [World.finish, unregister_queue]; rfl)

end Level

/-! ## Moves that change the balance -/

namespace Claimed

/-- What waits in a slot waits in a context with a bridge. -/
theorem bridge?_of_due (hw : w.Claimed cx) (slot : Nat) (h : 0 < w.due ⟨cx, slot⟩) :
    ∃ home i, w.bridge? cx = some (home, i) ∧ slot ∈ i.resolvers.map (·.1) := by
  rw [← hw slot, List.count_pos_iff] at h
  cases hb : w.bridge? cx with
  | none =>
    rw [slots_of_none hb] at h
    cases h
  | some b =>
    rw [slots_of_bridge? hb] at h
    exact ⟨b.1, b.2, rfl, h⟩

/-- A settlement that is due is due once. -/
theorem due_le_one (hw : w.Claimed cx) (hs : Slotted w) (slot : Nat) : w.due ⟨cx, slot⟩ ≤ 1 := by
  rw [← hw slot]
  cases hb : w.bridge? cx with
  | none =>
    rw [slots_of_none hb]
    exact Nat.zero_le _
  | some b =>
    rw [slots_of_bridge? hb]
    exact List.nodup_iff_count_le_one.1 (hs.resolver_nodup (bridge?_eq_some.1 hb).2) slot

/-- A deferred hands its settlement over to the loop. -/
theorem hand_over (hw : w.Claimed cx) (hh : Housed w) {k : Settlement} (w₁ : World)
    (hs : w₁.slots cx = w.slots cx) (hl : w₁.loops = w.loops) (he : w₁.errands = w.errands)
    (ho : ∀ k, lost k w₁.history = lost k w.history)
    (hk : ∀ p, w₁.waiting p + (if p k then 1 else 0) = w.waiting p) (status : DeferredStatus)
    (v : NativeValue) : (w₁.post k.context (.settle k.slot status v)).1.Claimed cx := by
  have hp := Posts.post w₁ k.context (.settle k.slot status v)
  have hopen : cx = k.context → (w₁.loopOf k.context).isOpen := by
    rintro rfl
    have hdue : 0 < w.due k := by
      rw [due, ← hk, if_pos (decide_eq_true rfl)]
      omega
    obtain ⟨home, i, hb, -⟩ := hw.bridge?_of_due k.slot hdue
    rw [loopOf_congr hl]
    exact hh.isOpen_of_bridge? hb
  intro slot
  have hcome : w₁.coming ⟨cx, slot⟩ = w.coming ⟨cx, slot⟩ :=
    coming_congr he (by rw [loopOf_congr hl])
  rw [slots_posts hp, hs, hw slot, due, due, waiting_posts hp, lost_posts hp, ho,
    coming_post_settle k _ hopen, hcome, ← hk]
  simp only [decide_eq_true_eq]
  omega

/-- A deferred that is completed hands its settlement over to an errand. -/
theorem determine (hw : w.Claimed cx) {id status v} (h : w.determine id status v = some w') :
    w'.Claimed cx := by
  obtain ⟨d, hd, hs, -, hw'⟩ := determine_cases h
  intro slot
  have hwait := waiting_fulfil (· = ⟨cx, slot⟩) hd hs status v
  have hcome : w'.coming ⟨cx, slot⟩ =
      w.coming ⟨cx, slot⟩ + if d.continuation.any (· = ⟨cx, slot⟩) then 1 else 0 := by
    have he : (errandsOf status v d.continuation).countP (Errand.settles ⟨cx, slot⟩) =
        if d.continuation.any (· = ⟨cx, slot⟩) then 1 else 0 := by
      cases d.continuation with
      | none => rfl
      | some k =>
        obtain ⟨c, s⟩ := k
        simp [errandsOf, Errand.settles, Wake.settles, List.countP_cons]
    rw [hw', coming, coming, List.countP_append, he, Nat.add_comm (ite ..), ← Nat.add_assoc]
    rfl
  have hdue := hw slot
  rw [due] at hdue ⊢
  rw [hcome, hw']
  change (w.slots cx).count slot = World.waiting (w.fulfil id { status, value := v } status v) _ +
    _ + (History.lost ⟨cx, slot⟩ w.history).toNat
  omega

/-- What an errand queues was due before. -/
theorem launch (hw : w.Claimed cx) (hh : Housed w) {before after : List Errand} {c : ContextId}
    {wake : Wake} (h : w.errands = before ++ .armed c wake :: after) :
    (w.launch before after c wake).1.Claimed cx := by
  refine Level.claimed (.of_posts (.launch w ..) fun slot => coming_launch h _ fun hs => ?_) hw
  have hc : c = cx := of_decide_eq_true (Bool.and_eq_true_iff.1 hs).1
  have hpos : 0 < w.errands.countP (Errand.settles ⟨cx, slot⟩) := by
    refine List.countP_pos_iff.2 ⟨.armed c wake, ?_, hs⟩
    rw [h]
    exact List.mem_append_right _ (List.mem_cons_self ..)
  obtain ⟨home, i, hb, -⟩ := hw.bridge?_of_due slot (by rw [due, coming]; omega)
  exact hc ▸ hh.isOpen_of_bridge? hb

/-- A new promise takes up one slot. -/
theorem count_slots_park (hw : Bridged w) {c : ContextId} {home i}
    (hb : w.bridge? c = some (home, i)) (id : DeferredId) (cx : ContextId) (slot : Nat) :
    ((w.park c home i.nextSlot id).slots cx).count slot = (w.slots cx).count slot +
      if (⟨c, i.nextSlot⟩ : Settlement) = ⟨cx, slot⟩ then 1 else 0 := by
  have hi := w.park_installations c home i.nextSlot id
  by_cases hc : c = cx
  · subst hc
    rw [slots_modify_self hi hb rfl, slots_of_bridge? hb, List.map_append, List.count_append,
      List.map_cons, List.map_nil, List.count_singleton]
    simp only [beq_iff_eq, Settlement.mk.injEq, true_and]
  · have hn := hw.data?_ne (bridge?_eq_some.1 hb).1 (Ne.symm hc)
    rw [slots_modify_of_ne hi hn rfl, if_neg fun h => hc (congrArg Settlement.context h),
      Nat.add_zero]

/-- A deferred that is converted again forgets the settlement that it had. -/
theorem lost_park (hw : w.Claimed cx) (ht : Tracked w) (hs : Slotted w) {id d}
    (hd : w.deferred? id = some d) (hp : d.status = .pending) (c : ContextId)
    (home : InstallationId) (next slot : Nat) :
    (lost ⟨cx, slot⟩ (w.park c home next id).history).toNat =
      (lost ⟨cx, slot⟩ w.history).toNat +
        if d.continuation.any (· = ⟨cx, slot⟩) then 1 else 0 := by
  obtain ⟨ho, hl⟩ := ht.pending hd hp
  rw [park, lost_promised, ho, ← hl]
  by_cases hk : d.continuation = some ⟨cx, slot⟩
  · have hpos : 0 < w.waiting (· = ⟨cx, slot⟩) :=
      waiting_pos hd ((Deferred.abandoned_of_pending hp).trans hk) (decide_eq_true rfl)
    have hone := hw.due_le_one hs slot
    rw [due] at hone
    have hno : lost ⟨cx, slot⟩ w.history = false := by
      cases hlost : lost ⟨cx, slot⟩ w.history with
      | false => rfl
      | true =>
        rw [hlost, Bool.toNat_true] at hone
        omega
    rw [hno, hk]
    simp
  · have hn : d.continuation.any (· = ⟨cx, slot⟩) = false := by
      cases hc : d.continuation with
      | none => rfl
      | some k => exact decide_eq_false fun h => hk (hc.trans (congrArg some h))
    rw [hn]
    simp [hk]

/-- A promise takes a slot of its own, and its deferred or the loop takes it over. -/
theorem promise (hw : w.Claimed cx) (hr : Reachable w) {c : ContextId} {home i id d}
    (hb : w.bridge? c = some (home, i)) (hd : w.deferred? id = some d) :
    (w.promise c home i.nextSlot id d).1.Claimed cx := by
  intro slot
  have hslots := count_slots_park hr.bridged hb id cx slot
  have hcome := coming_promise home i.nextSlot hd (hr.housed.isOpen_of_bridge? hb) ⟨cx, slot⟩
  have hdue := hw slot
  rw [due] at hdue ⊢
  obtain ⟨hp, h⟩ | ⟨hp, h⟩ := w.promise_posts c home i.nextSlot hd
  · have hlost := hw.lost_park hr.tracked hr.slotted hd hp c home i.nextSlot slot
    have hwait := waiting_waitFor (w := w.park c home i.nextSlot id) (· = ⟨cx, slot⟩) hd hp
      ⟨c, i.nextSlot⟩
    rw [if_neg fun h => h.1 hp] at hcome
    rw [slots_posts h, waiting_posts h, lost_posts h, hcome]
    change ((w.park c home i.nextSlot id).slots cx).count slot = _ +
      (lost _ (w.park c home i.nextSlot id).history).toNat
    change _ + _ = w.waiting _ + _ at hwait
    simp only [decide_eq_true_eq] at hwait
    omega
  · have hlost : lost ⟨cx, slot⟩ (w.park c home i.nextSlot id).history = lost ⟨cx, slot⟩ w.history := by
      rw [park, lost_promised, hr.tracked.complete hd hp, Option.isNone_some, Bool.and_false,
        Bool.or_false]
    simp only [hp, ne_eq, not_false_eq_true, true_and] at hcome
    rw [slots_posts h, waiting_posts h, lost_posts h, hcome, hlost]
    change _ = w.waiting _ + _ + _
    omega

/-- A delivery takes the promise that its wake is for. -/
theorem take (hw : w.Claimed cx) (hr : Reachable w) {c : ContextId} {wake : Wake} {rest : List Wake}
    (hq : (w.loopOf c).queue = wake :: rest) :
    ((w.pop c wake rest).begin c wake).Claimed cx := by
  intro slot
  have hcome := coming_pop hq ⟨cx, slot⟩
  have hdue := hw slot
  have hslots : (w.pop c wake rest).slots cx = w.slots cx :=
    slots_congr (data?_pop ..) fun _ _ => rfl
  have hbridge : (w.pop c wake rest).bridge? c = w.bridge? c := bridge?_congr (data?_pop ..) rfl
  -- a settlement that is queued for this context finds its promise
  have hfound (hc : cx = c) (hs : wake.settles slot) :
      ∃ home i p, (w.pop c wake rest).bridge? c = some (home, i) ∧
        (w.pop c wake rest).parked? home slot = some p := by
    subst hc
    rw [if_pos ⟨rfl, hs⟩] at hcome
    obtain ⟨home, i, hb, hm⟩ := hw.bridge?_of_due slot (by rw [due]; omega)
    obtain ⟨p, hp⟩ := parked?_of_mem (bridge?_eq_some.1 hb).2 hm
    exact ⟨home, i, p, hbridge.trans hb, hp⟩
  have hone := hw.due_le_one hr.slotted slot
  rw [due] at hdue hone ⊢
  have hkeep (hn : ¬ (cx = c ∧ wake.settles slot)) : ((w.pop c wake rest).slots cx).count slot =
      w.waiting (· = ⟨cx, slot⟩) + (w.pop c wake rest).coming ⟨cx, slot⟩ +
        (lost ⟨cx, slot⟩ w.history).toNat := by
    rw [if_neg hn] at hcome
    rw [hslots]
    omega
  have hbegin := begins (w.pop c wake rest) c wake
  generalize (w.pop c wake rest).begin c wake = w' at hbegin ⊢
  cases hbegin with
  | other h => exact hkeep fun hs => Bool.false_ne_true ((Wake.settles_of_ne h slot).symm.trans hs.2)
  | unbridged h =>
    refine hkeep fun ⟨hc, hs⟩ => ?_
    obtain ⟨home, i, p, hb, -⟩ := hfound hc hs
    cases h.symm.trans hb
  | missed h hp =>
    refine hkeep fun ⟨hc, hs⟩ => ?_
    obtain ⟨home', i', p, hb, hp'⟩ := hfound hc hs
    obtain rfl := of_decide_eq_true hs
    cases h.symm.trans hb
    cases hp.symm.trans hp'
  | @unparked s status v home i p h hp =>
    have hi := vacate_installations (w.pop c (.settle s status v) rest) c home s p
    have hd : ((w.pop c (.settle s status v) rest).vacate c home s p).data? cx =
      (w.pop c (.settle s status v) rest).data? cx := rfl
    generalize hw' : (w.pop c (.settle s status v) rest).vacate c home s p = w' at hi hd
    have hrest : w'.waiting (· = ⟨cx, slot⟩) + w'.coming ⟨cx, slot⟩ +
        (lost ⟨cx, slot⟩ w'.history).toNat = w.waiting (· = ⟨cx, slot⟩) +
          (w.pop c (.settle s status v) rest).coming ⟨cx, slot⟩ +
          (lost ⟨cx, slot⟩ w.history).toNat := by
      rw [← hw']
      rfl
    rw [hrest]
    by_cases hc : cx = c
    · subst hc
      rw [slots_of_bridge? h] at hkeep hslots
      rw [slots_modify_self hi h hd, count_filter_slot]
      split
      · next hs =>
        subst hs
        rw [if_pos ⟨rfl, decide_eq_true rfl⟩] at hcome
        omega
      · next hs => exact hkeep fun h => hs (of_decide_eq_true h.2)
    · have hn := hr.bridged.data?_ne (bridge?_eq_some.1 (hbridge ▸ h)).1 hc
      rw [slots_modify_of_ne hi ((congrArg (· ≠ _) (data?_pop ..)).mpr hn) hd]
      exact hkeep fun h => hc h.1

end Claimed

end World

/-- What a context had before it was given something to carry is nothing, and it has nothing new. -/
theorem World.Claimed.of_unbound {w w' : World} {cx : ContextId} (hw : w.Claimed cx)
    (hb : w.bridge? cx = none) (hs : w'.slots cx = [])
    (hd : ∀ slot, w'.due ⟨cx, slot⟩ ≤ w.due ⟨cx, slot⟩) : w'.Claimed cx := by
  intro slot
  have h := hw slot
  have := hd slot
  rw [World.slots_of_none hb, List.count_nil] at h
  rw [hs, List.count_nil]
  omega

/-- **The promises in the slots of a context are those that wait for something**: for their deferred,
for a wake that is queued, or for a deferred that has forgotten them. -/
theorem Reachable.claimed {w : World} (h : Reachable w) {cx : ContextId}
    (hb : bindings cx w.history ≤ 1) : w.Claimed cx := by
  refine h.rec' (P := fun w => bindings cx w.history ≤ 1 → w.Claimed cx)
    (fun plans _ slot => rfl) (fun w w' hr ih hm hone => ?_) hb
  have hw := ih (Nat.le_trans (bindings_le hm.history) hone)
  have hlevel (h : World.Level w w' cx) : w'.Claimed cx := h.claimed hw
  cases hm with
  | quiet h => exact hlevel (.quiet h cx)
  | destroy r h =>
    have hd := w.destroys r
    generalize (w.destroy r).1 = w' at hd hlevel ⊢
    cases hd with
    | installation =>
      refine hlevel (.of_slots (World.slots_congr rfl fun id hid => ?_) rfl)
      rw [World.installation?, Store.get?_erase, if_neg]
      · rfl
      · rintro he
        exact h (InstallationId.index_inj.1 he ▸ World.mem_references_of_data? hid)
    | channels hc => exact hlevel ((World.Level.disconnect ..).trans (.prune ..))
    | deferred hd ha =>
      refine hlevel (.of_waiting (fun p => ?_) rfl (fun _ => rfl) fun _ => rfl)
      have h := World.waiting_expire p hd
      rwa [ha, Option.any_none, if_neg Bool.false_ne_true, Nat.add_zero] at h
    | abandoned hd ha =>
      refine hw.hand_over hr.housed (w.expire _) rfl rfl rfl (fun _ => rfl) (fun p => ?_) _ _
      have h := World.waiting_expire p hd
      rwa [ha, Option.any_some] at h
    | _ => exact hlevel (.of_slots rfl rfl)
  | keepClass e hb ho hc hf => exact hlevel (.keepClass w _ e cx)
  | openContext global => exact hlevel (.openContext w global cx)
  | closeContext c =>
    by_cases hc : cx = c
    · subst hc
      rw [w.bindings_closeContext, if_pos rfl] at hone
      have hnone : (w.closeContext cx).1.data? cx = none := by
        rw [World.data?, World.context?_closeContext, if_pos rfl]
        rfl
      refine hw.of_unbound (hr.bridged.bridge?_eq_none (by omega)) (World.slots_of_data? ?_)
        fun slot => ?_
      · rw [hnone]
        simp
      · have hl : lost ⟨cx, slot⟩ (w.closeContext cx).1.history = lost ⟨cx, slot⟩ w.history :=
          skip_dropped (f := lost _) (fun _ _ => rfl) ..
        rw [World.due, World.due, hl]
        exact Nat.add_le_add_right (Nat.add_le_add_left (World.coming_closeContext_le ..) _) _
    · exact hlevel (.closeContext w hc)
  | @install c registry hc =>
    by_cases h : cx = c
    · subst h
      rw [w.bindings_install, if_pos rfl] at hone
      exact hw.of_unbound (hr.bridged.bridge?_eq_none (by omega)) (w.slots_install hc registry)
        fun slot => Nat.le_refl _
    · exact hlevel (.install w hr.bridged h registry)
  | unbind c text =>
    by_cases h : cx = c
    · subst h
      rw [w.bindings_unbind, if_pos rfl] at hone
      refine hw.of_unbound (hr.bridged.bridge?_eq_none (by omega)) (World.slots_of_data? ?_)
        fun slot => Nat.le_refl _
      exact w.data?_unbind_ne cx text
    · exact hlevel (.unbind w h text)
  | newDeferred => exact hlevel (.of_waiting w.waiting_newDeferred rfl (fun _ => rfl) fun _ => rfl)
  | determine h => exact hw.determine h
  | promise hb hd => exact hw.promise hr hb hd
  | setSubscriber id place callback hb => exact hlevel (.setSubscriber w ..)
  | arm h => exact hlevel (.arm h cx)
  | launch h => exact hw.launch hr.housed h
  | take h =>
    obtain ⟨rest, hq, rfl⟩ := World.take_cases h
    exact hw.take hr hq
  | finish => exact hlevel (.finish w ..)
  | openScope =>
    exact hlevel (.of_slots (World.slots_congr (w.data?_openScope ..) fun _ _ => rfl) rfl)
  | closeScope =>
    exact hlevel (.of_slots (World.slots_congr (w.data?_closeScope ..) fun _ _ => rfl) rfl)
  | newTicket name h => exact hlevel (.newTicket w ..)
  | sendTicket h label body =>
    refine hlevel (.of_posts (.sendTicket w ..) fun slot => ?_)
    exact World.coming_post_of_not _ (fun _ => rfl) _
  | dropTicket h =>
    refine hlevel (.of_posts (.dropTicket w ..) fun slot => ?_)
    exact World.coming_unregister ..
  | _ => exact hlevel (.of_slots rfl rfl)

/-- **A delivery finds its promise.** -/
theorem Reachable.not_missed {w : World} (h : Reachable w) {k : Settlement}
    (hb : bindings k.context w.history ≤ 1) : .missed k ∉ w.history := by
  refine h.rec' (P := fun w => bindings k.context w.history ≤ 1 → .missed k ∉ w.history) (fun _ _ => nofun)
    (fun w w' hr ih hm hb ho => ?_) hb
  have hb := Nat.le_trans (bindings_le hm.history) hb
  obtain ho | hn := hm.arises ho
  · exact ih hb ho
  · cases hn with
    | @missed cx slot status v rest home i hq hbr hp =>
      have hdue : 0 < w.due ⟨cx, slot⟩ := by
        have hc := World.coming_pop hq ⟨cx, slot⟩
        rw [if_pos ⟨rfl, decide_eq_true rfl⟩] at hc
        rw [World.due]
        omega
      obtain ⟨home', i', hbr', hm'⟩ := (hr.claimed hb).bridge?_of_due slot hdue
      obtain ⟨p, hp'⟩ := World.parked?_of_mem (World.bridge?_eq_some.1 hbr').2 hm'
      cases hbr.symm.trans hbr'
      cases hp.symm.trans hp'

end Isthmus
