import Isthmus.Proofs.Run.Names
import Isthmus.Proofs.Run.Tokens

/-!
# Proofs/Run/Registrations — what keeps a loop alive

`Reachable.registered`: the registrations with a loop are those of its queue, of the deliveries that are
under way, of the wakes that are to be queued, of the promises that wait for a deferred, and of the
tickets, one each.  So a loop without registrations has nothing queued and nothing to wait for
(`Reachable.idle`).

In between, while an operation is under way, some registrations may be in hand: taken and not yet given
to anything.
-/

namespace Isthmus

open History

/-! ## Loops stay -/

/-- A loop stays, whatever becomes of its context. -/
theorem Move.isSome_loop? {w w' : World} (hm : Move w w') {cx : ContextId}
    (h : (w.loop? cx).isSome) : (w'.loop? cx).isSome := by
  have hmodify {w w' : World} {c : ContextId} {f : Loop → Loop}
      (hl : w'.loops = w.loops.modify c.index f) (h : (w.loop? cx).isSome) :
      (w'.loop? cx).isSome :=
    (World.isSome_loop?_modify hl cx).trans h
  have hlaw : PostLaw fun w => (w.loop? cx).isSome := by
    refine ⟨fun h hw => ?_, fun c hw => hmodify (World.register_loops _ c) hw,
      fun c hw => hmodify (World.unregister_loops _ c) hw, fun {w} c wake hw => ?_, fun h hw => ?_⟩
    · rwa [World.loop?, h.loops]
    · by_cases ho : (w.loopOf c).isOpen
      · exact hmodify (World.post_loops_of_isOpen wake ho) hw
      · rw [World.post_of_closed wake ho]
        exact hmodify (World.unregister_loops _ c) hw
    · cases h with
      | _ => exact hw
  refine hlaw.loopLaw.move h hm (fun global => ?_) (fun c => hmodify (w.closeContext_loops c) h)
    (fun c wake w₁ ht => ?_) (fun _ _ _ _ _ => h) fun c wake rest broke hd hu =>
      hmodify (World.unregister_loops _ c) h
  · rw [World.loop?, World.openContext, Store.get?_insert]
    split
    · rfl
    · exact h
  · obtain ⟨rest, -, rfl⟩ := World.take_cases ht
    exact hmodify (w.pop_loops c wake rest) h

/-- Loops stay as long as the world runs. -/
theorem Moves.isSome_loop? {w w' : World} (hm : Moves w w') {cx : ContextId}
    (h : (w.loop? cx).isSome) : (w'.loop? cx).isSome := by
  induction hm with
  | refl => exact h
  | tail _ hm ih => exact hm.isSome_loop? ih

/-- A context on which a bridge was installed has a loop. -/
theorem Reachable.isSome_loop?_of_installed {w : World} (h : Reachable w) {cx id registry}
    (hi : .installed cx id registry ∈ w.history) : (w.loop? cx).isSome := by
  refine h.rec' (P := fun w => .installed cx id registry ∈ w.history → (w.loop? cx).isSome)
    (fun _ => nofun) (fun w w' hr ih hm hi => ?_) hi
  obtain hi | hi := hm.arises hi
  · exact hm.isSome_loop? (ih hi)
  · cases hi with
    | installed hc hw =>
      exact hm.isSome_loop? (World.isSome_loop?_of_isOpen (hr.housed.isOpen cx hc))

/-- A firing is for a context that has a loop. -/
theorem Reachable.isSome_loop?_of_begun {w : World} (h : Reachable w)
    {e : ContextId × Token × List NativeValue} (he : e ∈ w.begun) : (w.loop? e.1).isSome := by
  obtain ⟨-, id, registry, hi, -⟩ := h.rooted.aimed (h.aimed_of_begun he)
  exact h.isSome_loop?_of_installed hi

/-! ## Promises that wait -/

namespace World

/-- How many settlements of the sort wait for a deferred. -/
def waiting (w : World) (p : Settlement → Bool) : Nat :=
  w.deferreds.total fun d => if d.abandoned.any p then 1 else 0

variable {w : World} {id : DeferredId} {d : Deferred Settlement} (p : Settlement → Bool)

/-- A deferred that is completed is no longer waited for. -/
theorem waiting_fulfil (hd : w.deferred? id = some d) (hs : d.status = .pending)
    (status : DeferredStatus) (v : NativeValue) :
    (w.fulfil id { status, value := v } status v).waiting p +
      (if d.continuation.any p then 1 else 0) = w.waiting p := by
  have ht := Store.total_modify (fun d : Deferred Settlement => if d.abandoned.any p then 1 else 0)
    (fun _ => { status, value := v }) hd
  have ha : ({ status, value := v } : Deferred Settlement).abandoned = none := by
    rw [Deferred.abandoned]
    split
    · rfl
    · rfl
  have hc := Deferred.abandoned_of_pending hs
  rw [ha, hc] at ht
  exact ht

/-- So is one that ends. -/
theorem waiting_expire (hd : w.deferred? id = some d) :
    (w.expire id).waiting p + (if d.abandoned.any p then 1 else 0) = w.waiting p :=
  Store.total_erase _ hd

/-- A settlement that waits takes the place of an earlier one. -/
theorem waiting_waitFor (hd : w.deferred? id = some d) (hs : d.status = .pending)
    (k : Settlement) :
    (w.waitFor id d k).waiting p + (if d.continuation.any p then 1 else 0) =
      w.waiting p + if p k then 1 else 0 := by
  have ht := Store.total_modify (fun d : Deferred Settlement => if d.abandoned.any p then 1 else 0)
    (fun _ => { d with continuation := some k }) hd
  have ha : ({ d with continuation := some k } : Deferred Settlement).abandoned = some k := by
    rw [Deferred.abandoned, hs]
  have hc := Deferred.abandoned_of_pending hs
  rw [ha, hc] at ht
  exact ht

variable {p} in
/-- An abandoned settlement was waiting. -/
theorem waiting_pos {k : Settlement} (hd : w.deferred? id = some d) (hk : d.abandoned = some k)
    (hp : p k) : 0 < w.waiting p := by
  have ht := Store.le_total (fun d : Deferred Settlement => if d.abandoned.any p then 1 else 0) hd
  rw [hk, Option.any_some, if_pos hp] at ht
  exact ht

variable {p} in
/-- Where nothing of a kind waits, nothing of a narrower kind does. -/
theorem waiting_eq_zero {q : Settlement → Bool} (h : ∀ k, p k → q k) (hq : w.waiting q = 0) :
    w.waiting p = 0 := by
  refine Nat.eq_zero_of_not_pos fun hpos => ?_
  obtain ⟨key, d, hd, hany⟩ := Store.exists_of_total_pos hpos
  cases hk : d.abandoned with
  | none =>
    rw [hk] at hany
    exact absurd hany (Nat.lt_irrefl 0)
  | some k =>
    rw [hk, Option.any_some] at hany
    have hp : p k := by
      by_contra hn
      rw [if_neg hn] at hany
      exact Nat.lt_irrefl 0 hany
    have hd : w.deferred? ⟨key⟩ = some d := hd
    have hpos := waiting_pos hd hk (h k hp)
    omega

/-- For a new deferred nothing waits. -/
theorem waiting_newDeferred (w : World) : w.newDeferred.waiting p = w.waiting p :=
  Store.total_insert ..

/-! ## Registrations -/

end World

/-- The errand has its registration with the loop. -/
def Errand.isArmed (cx : ContextId) : Errand → Bool
  | .armed c _ => c = cx
  | .aimed .. => false

namespace World

variable {w : World}

/-- The registrations with a loop that are not those of its queue. -/
def spare (w : World) (cx : ContextId) : Int :=
  (w.loopOf cx).live - (w.loopOf cx).queue.length

/-- How many errands have their registration with a loop. -/
def armed (w : World) (cx : ContextId) : Nat :=
  w.errands.countP (Errand.isArmed cx)

/-- What a registration is for, beside the queue. -/
def holders (w : World) (cx : ContextId) : Nat :=
  w.waiting (·.context = cx) + w.roots.tickets.count (· = cx) + w.delivering.countP (·.1 = cx) +
    w.armed cx

variable {cx : ContextId}

/-- An errand that is done has handed its registration on. -/
theorem armed_of_errands {before after : List Errand} {wake : Wake}
    (h : w.errands = before ++ .armed cx wake :: after) (c : ContextId) :
    w.armed c = World.armed { w with errands := before ++ after } c + if cx = c then 1 else 0 := by
  rw [armed, armed, h, List.countP_append, List.countP_append, List.countP_cons]
  simp only [Errand.isArmed, decide_eq_true_eq]
  exact (Nat.add_assoc ..).symm

/-- A registration that is in hand is to spare. -/
theorem spare_register (hs : (w.loop? cx).isSome) (c : ContextId) :
    (w.register cx).spare c = w.spare c + (if cx = c then 1 else 0 : Nat) := by
  rw [spare, spare, register_queue]
  split
  · next h =>
    subst h
    rw [loopOf_modify_self (w.register_loops cx) hs]
    dsimp only
    omega
  · next h =>
    rw [loopOf_modify_of_ne (w.register_loops cx) (Ne.symm h)]
    omega

/-- One that is given up is not. -/
theorem spare_unregister (hl : 0 < (w.loopOf cx).live) (c : ContextId) :
    (w.unregister cx).spare c = w.spare c - (if cx = c then 1 else 0 : Nat) := by
  rw [spare, spare, unregister_queue]
  split
  · next h =>
    subst h
    rw [loopOf_modify_self (w.unregister_loops cx) (isSome_loop?_of_live hl)]
    dsimp only
    omega
  · next h =>
    rw [loopOf_modify_of_ne (w.unregister_loops cx) (Ne.symm h)]
    omega

/-- One that is posted moves into the queue. -/
theorem spare_post (wake : Wake) (hl : 0 < (w.loopOf cx).live) (c : ContextId) :
    (w.post cx wake).1.spare c = w.spare c - (if cx = c then 1 else 0 : Nat) := by
  by_cases ho : (w.loopOf cx).isOpen
  · have hp := post_loops_of_isOpen wake ho
    rw [spare, spare]
    split
    · next h =>
      subst h
      rw [loopOf_modify_self hp (isSome_loop?_of_isOpen ho), List.length_append]
      simp only [List.length_cons, List.length_nil]
      omega
    · next h =>
      rw [loopOf_modify_of_ne hp (Ne.symm h)]
      omega
  · rw [post_of_closed wake ho, spare_unregister hl]

end World

/-- Each registration is for one thing; `hand` are those that are not given to anything yet. -/
structure Registered (w : World) (hand : List ContextId) : Prop where
  spare_eq : ∀ cx, w.spare cx = w.holders cx + hand.count cx
  nodup : (w.roots.tickets.map (·.1)).Nodup

namespace Registered

variable {w w' : World} {hand : List ContextId} {cx : ContextId}

/-- A registration in hand is among those that the loop counts. -/
theorem live_pos (hw : Registered w (cx :: hand)) : 0 < (w.loopOf cx).live := by
  have h := hw.spare_eq cx
  rw [World.spare, List.count_cons_self] at h
  omega

/-- Registrations change hands, and the loops stay as they are. -/
theorem hand_over (hw : Registered w hand) {hand' : List ContextId} (hl : w'.loops = w.loops)
    (hh : ∀ cx, w'.holders cx + hand'.count cx = w.holders cx + hand.count cx)
    (hn : (w'.roots.tickets.map (·.1)).Nodup) : Registered w' hand' where
  spare_eq c := by
    have h := hw.spare_eq c
    have := hh c
    rw [World.spare, World.loopOf_congr hl, ← World.spare]
    omega
  nodup := hn

/-- Moves beside the loops keep the registrations. -/
theorem aside (hw : Registered w hand) (h : Aside w w') (hd : w'.deferreds = w.deferreds)
    (ht : w'.roots.tickets = w.roots.tickets) : Registered w' hand :=
  hw.hand_over h.loops
    (fun c => by
      rw [World.holders, World.holders, World.waiting, World.waiting, World.armed, World.armed, hd, ht,
        h.delivering, h.errands])
    (ht ▸ hw.nodup)

/-- A registration that is made is in hand. -/
theorem register (hw : Registered w hand) (hs : (w.loop? cx).isSome) :
    Registered (w.register cx) (cx :: hand) where
  spare_eq c := by
    rw [World.spare_register hs, hw.spare_eq, List.count_cons]
    have : (w.register cx).holders c = w.holders c := rfl
    simp only [beq_iff_eq]
    omega
  nodup := hw.nodup

/-- One that is given up was in hand. -/
theorem unregister (hw : Registered w (cx :: hand)) : Registered (w.unregister cx) hand where
  spare_eq c := by
    have h := hw.spare_eq c
    rw [List.count_cons] at h
    rw [World.spare_unregister hw.live_pos]
    have : (w.unregister cx).holders c = w.holders c := rfl
    simp only [beq_iff_eq] at h
    omega
  nodup := hw.nodup

/-- One that is posted is in the queue. -/
theorem post (hw : Registered w (cx :: hand)) (wake : Wake) :
    Registered (w.post cx wake).1 hand where
  spare_eq c := by
    have h := hw.spare_eq c
    rw [List.count_cons] at h
    rw [World.spare_post wake hw.live_pos]
    have : (w.post cx wake).1.holders c = w.holders c := by
      rw [World.post]
      split
      · rfl
      · rfl
    simp only [beq_iff_eq] at h
    omega
  nodup := by
    rw [World.post]
    split
    · exact hw.nodup
    · exact hw.nodup

/-- The registrations of an optional settlement. -/
theorem count_context (o : Option Settlement) (c : ContextId) :
    (o.toList.map (·.context)).count c = if o.any (·.context = c) then 1 else 0 := by
  cases o with
  | none => rfl
  | some k => simp [List.count_cons]

/-- A completed deferred leaves its registration with its thread. -/
theorem fulfil (hw : Registered w []) {id d} (hd : w.deferred? id = some d)
    (hs : d.status = .pending) (status : DeferredStatus) (v : NativeValue) :
    Registered (w.fulfil id { status, value := v } status v)
      (d.continuation.toList.map (·.context)) := by
  refine hw.hand_over rfl (fun c => ?_) hw.nodup
  have h := World.waiting_fulfil (·.context = c) hd hs status v
  rw [count_context, World.holders, World.holders, ← h]
  change _ + w.roots.tickets.count _ + w.delivering.countP _ + w.armed c + _ = _
  rw [List.count_nil]
  omega

/-- To complete a deferred keeps the registrations. -/
theorem determine (hw : Registered w []) {id status v}
    (h : w.determine id status v = some w') : Registered w' [] := by
  obtain ⟨d, hd, hs, -, rfl⟩ := World.determine_cases h
  have ha (c : ContextId) : (World.errandsOf status v d.continuation).countP (Errand.isArmed c) =
      if d.continuation.any (·.context = c) then 1 else 0 := by
    cases d.continuation with
    | none => rfl
    | some k => simp [World.errandsOf, Errand.isArmed, List.countP_cons]
  refine (hw.fulfil hd hs status v).hand_over rfl (fun c => ?_) hw.nodup
  rw [count_context, List.count_nil, World.holders, World.holders, World.armed, World.armed,
    List.countP_append, ha, Nat.add_zero, Nat.add_comm (ite ..), ← Nat.add_assoc]
  rfl

/-- An errand takes a registration. -/
theorem arm (hw : Registered w []) {before after : List Errand} {token args}
    (h : w.errands = before ++ .aimed cx token args :: after) (hs : (w.loop? cx).isSome) :
    Registered (w.arm before after cx (.event token args)) [] := by
  refine (hw.register hs).hand_over rfl (fun c => ?_) hw.nodup
  have ha : (w.register cx).armed c = (before ++ after).countP (Errand.isArmed c) := by
    rw [World.armed]
    change w.errands.countP _ = _
    rw [h, List.countP_append, List.countP_append, List.countP_cons]
    rfl
  have ha' : (w.arm before after cx (.event token args)).armed c =
      (before ++ after).countP (Errand.isArmed c) + if cx = c then 1 else 0 :=
    World.armed_of_errands rfl c
  rw [World.holders, World.holders, ha, ha', List.count_singleton, List.count_nil]
  change w.waiting _ + w.roots.tickets.count _ + w.delivering.countP _ + _ + _ =
    w.waiting _ + w.roots.tickets.count _ + w.delivering.countP _ + _ + _
  simp only [beq_iff_eq]
  omega

/-- An errand hands its registration over to the queue. -/
theorem launch (hw : Registered w []) {before after : List Errand} {wake : Wake}
    (h : w.errands = before ++ .armed cx wake :: after) :
    Registered (w.launch before after cx wake).1 [] := by
  have hand {w₁ : World} (hl : w₁.loops = w.loops) (hd : w₁.deferreds = w.deferreds)
      (hr : w₁.roots = w.roots) (hv : w₁.delivering = w.delivering)
      (he : w₁.errands = before ++ after) : Registered w₁ [cx] := by
    refine hw.hand_over hl (fun c => ?_) (hr ▸ hw.nodup)
    have ha : w₁.armed c = World.armed { w with errands := before ++ after } c :=
      congrArg (List.countP (Errand.isArmed c)) he
    rw [World.holders, World.holders, World.waiting, World.waiting, hd, hr, hv, ha,
      World.armed_of_errands h, List.count_singleton, List.count_nil]
    simp only [beq_iff_eq]
    omega
  by_cases ho : (w.loopOf cx).isOpen
  · rw [World.launch_of_isOpen ho]
    have hp : Registered { w with errands := before ++ after } [cx] := hand rfl rfl rfl rfl rfl
    exact hp.post wake
  · rw [World.launch_of_closed ho]
    have hd : Registered { w with
        errands := before ++ after
        history := .dropped cx wake :: w.history } [cx] := hand rfl rfl rfl rfl rfl
    exact hd.unregister

/-- The registration of a deferred that ends is in hand. -/
theorem expire (hw : Registered w []) {id d} (hd : w.deferred? id = some d) :
    Registered (w.expire id) (d.abandoned.toList.map (·.context)) := by
  refine hw.hand_over rfl (fun c => ?_) hw.nodup
  have h := World.waiting_expire (·.context = c) hd
  rw [count_context, World.holders, World.holders, ← h]
  change _ + w.roots.tickets.count _ + w.delivering.countP _ + w.armed c + _ = _
  rw [List.count_nil]
  omega

/-- Destroying something keeps the registrations. -/
theorem destroy (hw : Registered w []) {r} (h : World.Destroys w r w') : Registered w' [] := by
  cases h with
  | gone => exact hw
  | channels hc =>
    refine hw.aside ((Aside.disconnect w ..).trans (.prune _ _)) ?_ ?_
    · rw [World.prune_deferreds, World.disconnect]
    · rw [World.prune_roots, World.disconnect]
  | deferred hd ha =>
    have he := hw.expire hd
    rw [ha] at he
    exact he.hand_over rfl (fun _ => rfl) hw.nodup
  | abandoned hd ha =>
    have he := hw.expire hd
    rw [ha] at he
    exact he.post _
  | _ => exact hw.hand_over rfl (fun _ => rfl) hw.nodup

/-- A deferred that waits anew leaves the earlier registration in hand. -/
theorem waitFor {id d} {k : Settlement} (hw : Registered w [k.context])
    (hd : w.deferred? id = some d) (hs : d.status = .pending) :
    Registered (w.waitFor id d k) (d.continuation.toList.map (·.context)) := by
  refine hw.hand_over rfl (fun c => ?_) hw.nodup
  have h := World.waiting_waitFor (·.context = c) hd hs k
  have hk := count_context (some k) c
  simp only [Option.toList_some, List.map_cons, List.map_nil, Option.any_some] at hk
  rw [count_context, hk, World.holders, World.holders]
  change _ + w.roots.tickets.count _ + w.delivering.countP _ + w.armed c + _ = _
  omega

/-- To convert a deferred keeps the registrations. -/
theorem promise (hw : Registered w []) {cx : ContextId} (hs : (w.loop? cx).isSome)
    (home : InstallationId) (slot : Nat) {id d} (hd : w.deferred? id = some d) :
    Registered (w.promise cx home slot id d).1 [] := by
  have hp : Registered (w.park cx home slot id) [] := hw.hand_over rfl (fun _ => rfl) hw.nodup
  have hr : Registered ((w.park cx home slot id).register cx) [cx] := hp.register hs
  obtain ⟨hs, hc, h⟩ | ⟨hs, old, hc, h⟩ | ⟨-, h⟩ :=
    World.await_cases (w := w.park cx home slot id) hd ⟨cx, slot⟩
  · have hf := hr.waitFor (k := ⟨cx, slot⟩) hd hs
    rw [hc] at hf
    rw [World.promise, h]
    exact hf
  · have hf := hr.waitFor (k := ⟨cx, slot⟩) hd hs
    rw [hc] at hf
    rw [World.promise, h]
    exact hf.unregister
  · rw [World.promise, h]
    exact hr.post _

/-- To set a subscriber does not touch them. -/
theorem setSubscriber (hw : Registered w []) (id : ChannelsId) (place : Nat)
    (home : InstallationId) (slot : Nat) (callback : Option ForeignValue) :
    Registered (w.setSubscriber id place home slot callback).1 [] := by
  have h := Aside.setSubscriber w id place home slot callback
  unfold World.setSubscriber at h ⊢
  split at h
  · exact hw
  · exact hw.aside h (World.prune_deferreds ..) (by rw [World.prune_roots]; rfl)
  · exact hw.aside h (World.prune_deferreds ..) (by rw [World.prune_roots]; rfl)

/-- A ticket has its registration. -/
theorem newTicket (hw : Registered w []) (name : String) (hs : (w.loop? cx).isSome) :
    Registered (w.newTicket name cx) [] := by
  have hr : Registered (w.register cx) [cx] := hw.register hs
  have hn := Names.nodup_put hw.nodup name cx
  cases hf : w.roots.tickets.find? name with
  | none =>
    have hw' : w.newTicket name cx =
        { w.register cx with roots.tickets := w.roots.tickets.put name cx } := by
      simp only [World.newTicket, hf, World.register]
    rw [hw']
    refine hr.hand_over rfl (fun c => ?_) hn
    have hc := Names.count_put_of_none hf cx (· = c)
    rw [World.holders, World.holders, List.count_singleton, List.count_nil]
    change w.waiting _ + (w.roots.tickets.put name cx).count _ + w.delivering.countP _ + w.armed c + _ =
      w.waiting _ + w.roots.tickets.count _ + w.delivering.countP _ + w.armed c + _
    simp only [decide_eq_true_eq, beq_iff_eq] at hc ⊢
    omega
  | some other =>
    have hw' : w.newTicket name cx =
        World.unregister { w.register cx with roots.tickets := w.roots.tickets.put name cx }
          other := by
      simp only [World.newTicket, hf, World.register]
    rw [hw']
    refine unregister (hr.hand_over rfl (fun c => ?_) hn)
    have hc := Names.count_put_of_some hw.nodup hf cx (· = c)
    rw [World.holders, World.holders, List.count_singleton, List.count_singleton]
    change w.waiting _ + (w.roots.tickets.put name cx).count _ + w.delivering.countP _ + w.armed c + _ =
      w.waiting _ + w.roots.tickets.count _ + w.delivering.countP _ + w.armed c + _
    simp only [decide_eq_true_eq, beq_iff_eq] at hc ⊢
    omega

/-- A ticket that is given up leaves its registration in hand. -/
theorem removeTicket (hw : Registered w []) {name : String}
    (h : w.roots.tickets.find? name = some cx) :
    Registered { w with roots.tickets := w.roots.tickets.remove name } [cx] := by
  refine hw.hand_over rfl (fun c => ?_) (Names.nodup_remove hw.nodup name)
  have hc := Names.count_remove hw.nodup h (· = c)
  rw [World.holders, World.holders, List.count_singleton, List.count_nil]
  change w.waiting _ + (w.roots.tickets.remove name).count _ + w.delivering.countP _ + w.armed c + _ =
    w.waiting _ + w.roots.tickets.count _ + w.delivering.countP _ + w.armed c + _
  simp only [decide_eq_true_eq, beq_iff_eq] at hc ⊢
  omega

/-- A new context has none. -/
theorem openContext (hw : Registered w []) (global : ObjectId) :
    Registered (w.openContext global) [] where
  spare_eq c := by
    have h := hw.spare_eq c
    have hh : (w.openContext global).holders c = w.holders c := rfl
    rw [World.spare] at h ⊢
    rw [World.loopOf_openContext, hh]
    split
    · next hc =>
      have hl : w.loop? c = none := by
        rw [World.loop?, hc]
        exact Store.get?_next _
      rw [World.loopOf, hl] at h
      exact h
    · exact h
  nodup := hw.nodup

/-- A context that ends gives up all that are queued. -/
theorem closeContext (hw : Registered w []) (cx : ContextId) :
    Registered (w.closeContext cx).1 [] where
  spare_eq c := by
    have h := hw.spare_eq c
    have hl := w.closeContext_loops cx
    have hh : (w.closeContext cx).1.holders c = w.holders c := rfl
    rw [hh, ← h, World.spare, World.spare]
    rw [World.spare] at h
    by_cases hc : c = cx
    · subst hc
      by_cases hs : (w.loop? c).isSome
      · rw [World.loopOf_modify_self hl hs, List.length_nil]
        dsimp only
        omega
      · have hn : w.loops.get? c.index = none := Option.not_isSome_iff_eq_none.1 hs
        rw [Store.modify_of_get?_none _ hn] at hl
        rw [World.loopOf_congr hl]
    · rw [World.loopOf_modify_of_ne hl hc]
  nodup := hw.nodup

/-- A wake that is taken takes its registration along. -/
theorem pop (hw : Registered w []) {wake : Wake} {rest : List Wake}
    (hq : (w.loopOf cx).queue = wake :: rest) : Registered (w.pop cx wake rest) [] where
  spare_eq c := by
    have h := hw.spare_eq c
    have hs : (w.loop? cx).isSome := World.isSome_loop?_of_queue (by rw [hq]; exact List.cons_ne_nil _ _)
    have hl := w.pop_loops cx wake rest
    have hh : (w.pop cx wake rest).holders c = w.holders c + if cx = c then 1 else 0 := by
      rw [World.holders, World.holders]
      change w.waiting _ + w.roots.tickets.count _ + ((cx, wake) :: w.delivering).countP _ + w.armed c = _
      rw [List.countP_cons]
      simp only [decide_eq_true_eq]
      omega
    rw [hh, World.spare]
    rw [World.spare] at h
    by_cases hc : c = cx
    · subst hc
      rw [World.loopOf_modify_self hl hs, if_pos rfl]
      rw [hq, List.length_cons] at h
      dsimp only
      omega
    · rw [World.loopOf_modify_of_ne hl hc, if_neg (Ne.symm hc)]
      exact h
  nodup := hw.nodup

/-- The beginning of a delivery gives up none. -/
theorem begins (hw : Registered w hand) {wake} (h : World.Begins w cx wake w') :
    Registered w' hand := by
  cases h with
  | _ => exact hw.hand_over rfl (fun _ => rfl) hw.nodup

/-- Its end gives up the one of its wake. -/
theorem finish (hw : Registered w []) {wake rest} (hd : w.delivering = (cx, wake) :: rest)
    (broke : Bool) : Registered (w.finish cx wake broke) [] := by
  rw [World.finish]
  refine unregister (hw.hand_over rfl (fun c => ?_) hw.nodup)
  rw [World.holders, World.holders, List.count_singleton, List.count_nil]
  change w.waiting _ + w.roots.tickets.count _ + w.delivering.tail.countP _ + w.armed c + _ =
    w.waiting _ + w.roots.tickets.count _ + w.delivering.countP _ + w.armed c + _
  rw [hd, List.tail_cons, List.countP_cons]
  simp only [decide_eq_true_eq, beq_iff_eq]
  omega

end Registered

/-- **Registrations**: nothing is in hand between moves. -/
theorem Reachable.registered {w : World} (h : Reachable w) : Registered w [] := by
  refine h.rec' (P := fun w => Registered w []) (fun plans => ⟨fun cx => rfl, .nil⟩)
    fun w w' hr hw hm => ?_
  cases hm with
  | quiet h => exact hw.aside (.of_quiet h) h.deferreds h.tickets
  | destroy r _ => exact hw.destroy (w.destroys r)
  | openContext global => exact hw.openContext global
  | closeContext cx => exact hw.closeContext cx
  | newDeferred =>
    refine hw.hand_over rfl (fun c => ?_) hw.nodup
    rw [World.holders, World.waiting_newDeferred]
    rfl
  | determine h => exact hw.determine h
  | promise hb hd =>
    exact hw.promise (World.isSome_loop?_of_isOpen (hr.housed.isOpen_of_bridge? hb)) _ _ hd
  | setSubscriber id place callback hb => exact hw.setSubscriber ..
  | aim args h => exact hw.hand_over rfl (fun _ => rfl) hw.nodup
  | @arm before after cx token args h =>
    refine hw.arm h (hr.isSome_loop?_of_begun (e := (cx, token, args)) ?_)
    refine List.mem_filterMap.2 ⟨.aimed cx token args, ?_, rfl⟩
    rw [h]
    exact List.mem_append_right _ (List.mem_cons_self ..)
  | launch h => exact hw.launch h
  | take h =>
    obtain ⟨rest, hq, rfl⟩ := World.take_cases h
    exact (hw.pop hq).begins (World.begins ..)
  | finish hd hu hs => exact hw.finish hd _
  | newTicket name h => exact hw.newTicket name h
  | sendTicket h label body => exact (hw.removeTicket h).post _
  | dropTicket h => exact (hw.removeTicket h).unregister
  | keepClass | install | unbind | openScope | closeScope | connect | hear | settle | settleOwn =>
    exact hw.hand_over rfl (fun _ => rfl) hw.nodup

/-- **A loop without registrations has nothing queued, nothing to wait for, no delivery under way and
nothing that is to be queued.** -/
theorem Reachable.idle {w : World} (h : Reachable w) {cx : ContextId}
    (hl : (w.loopOf cx).live = 0) :
    (w.loopOf cx).queue = [] ∧ w.waiting (·.context = cx) = 0 ∧
      (∀ d ∈ w.delivering, d.1 ≠ cx) ∧ w.armed cx = 0 := by
  have hs := h.registered.spare_eq cx
  rw [World.spare, World.holders, List.count_nil, hl] at hs
  refine ⟨List.length_eq_zero_iff.1 (by omega), by omega, ?_, by omega⟩
  have hd : w.delivering.countP (·.1 = cx) = 0 := by omega
  rw [List.countP_eq_zero] at hd
  exact fun d hd' he => hd d hd' (decide_eq_true he)

end Isthmus
