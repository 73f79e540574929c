import Isthmus.Proofs.Pumping.Idle

/-!
# Proofs/Pumping/Advance — what one delivery does to a queue

A settlement takes its promise out of the slot and converts its value, which gives a promise to each
deferred in it.  If these deferreds are complete, each promise has its wake at the end of the queue at once,
so promises and wakes stay matched (`World.Advances`).

* `World.Draining` — what holds while a queue of settlements is delivered.
* `World.Draining.deliverNext` — a delivery replaces a wake by those that it prompts.
* `World.Draining.recurs` — a deferred that is its own value is promised again when its promise is settled.
-/

namespace Isthmus

open History

/-! ## Which wake prompts which -/

namespace World

variable {w w' : World} {cx : ContextId} {r : Registry} {ds : List DeferredId}

/-- The deferred is there and complete. -/
def IsComplete (w : World) (d : DeferredId) : Prop :=
  ∃ cell, w.deferred? d = some cell ∧ cell.status ≠ .pending

/-- The wake settles a promise with the outcome of the deferred. -/
def Tells (w : World) (d : DeferredId) (wake : Wake) : Prop :=
  ∃ cell slot, w.deferred? d = some cell ∧ wake = .settle slot cell.status cell.value

/-- Delivering one wake may queue the other, which settles a promise for a deferred that the one carries. -/
def Prompts (w : World) (wake wake' : Wake) : Prop :=
  ∃ d, .deferred d ∈ wake.refs ∧ w.Tells d wake'

/-! ## Promises for complete deferreds -/

/-- How many queued wakes are to settle the promise in a slot. -/
def settling (w : World) (cx : ContextId) (slot : Nat) : Nat :=
  (w.loopOf cx).queue.countP (Wake.settles slot)

theorem coming_eq (w : World) (cx : ContextId) (slot : Nat) : w.coming ⟨cx, slot⟩ =
    w.settling cx slot + w.errands.countP (Errand.settles ⟨cx, slot⟩) := rfl

theorem settling_congr (h : (w'.loopOf cx).queue = (w.loopOf cx).queue) (slot : Nat) :
    w'.settling cx slot = w.settling cx slot := by
  rw [settling, h, settling]

theorem settling_pop {wake : Wake} {rest : List Wake} (hq : (w.loopOf cx).queue = wake :: rest)
    (slot : Nat) : (w.pop cx wake rest).settling cx slot + (if wake.settles slot then 1 else 0) =
      w.settling cx slot := by
  have h := coming_pop hq ⟨cx, slot⟩
  rw [coming_eq, coming_eq] at h
  have he : (w.pop cx wake rest).errands = w.errands := rfl
  simp only [he, true_and] at h
  omega

theorem settling_promise (home : InstallationId) (slot : Nat) {d cell}
    (hd : w.deferred? d = some cell) (ho : (w.loopOf cx).isOpen) (slot' : Nat) :
    (w.promise cx home slot d cell).1.settling cx slot' =
      w.settling cx slot' + if cell.status ≠ .pending ∧ slot = slot' then 1 else 0 := by
  have h := coming_promise home slot hd ho ⟨cx, slot'⟩
  rw [coming_eq, coming_eq, promise_errands _ _ _ _ hd] at h
  simp only [Settlement.mk.injEq, true_and] at h
  omega

/-- The promises that are parked on the context are those that a queued wake is to settle. -/
def Matched (w : World) (cx : ContextId) : Prop :=
  ∀ slot, (w.slots cx).count slot = w.settling cx slot

/-- Deferreds that are complete were given promises: each has its wake at the end of the queue, and the
deferreds are as they were. -/
structure Promises (cx : ContextId) (ds : List DeferredId) (w w' : World) : Prop where
  deferreds : w'.deferreds = w.deferreds
  isOpen : (w'.loopOf cx).isOpen
  matched : w.Matched cx → w'.Matched cx
  queue : ∃ new, (w'.loopOf cx).queue = (w.loopOf cx).queue ++ new ∧ new.length = ds.length ∧
    ∀ wake ∈ new, ∃ d ∈ ds, w.Tells d wake

theorem promises_promiseTo (hb : (w.bridge? cx).isSome) (ho : (w.loopOf cx).isOpen) {d : DeferredId}
    (hd : w.IsComplete d) : Promises cx [d] w (promiseTo cx w d) := by
  obtain ⟨⟨home, i⟩, hb⟩ := Option.isSome_iff_exists.1 hb
  obtain ⟨cell, hd, hs⟩ := hd
  rw [promiseTo_eq hb hd]
  have hattach : (cell.attach ⟨cx, i.nextSlot⟩).1 = cell := by
    rw [Deferred.attach]
    split
    · next h => exact absurd h hs
    · rfl
  refine ⟨?_, promise_isOpen ho home i.nextSlot d cell, fun hm slot => ?_, ?_⟩
  · rw [promise_deferreds, hattach]
    exact Store.modify_self hd
  · rw [settling_promise home i.nextSlot hd ho, slots_of_bridge? (bridge?_promise hb hd),
      List.map_append, List.count_append, ← slots_of_bridge? hb, hm slot]
    simp only [hs, ne_eq, not_false_eq_true, true_and, List.map_cons, List.map_nil,
      List.count_singleton, beq_iff_eq]
  · obtain ⟨hp, -⟩ | ⟨hp, -⟩ | ⟨-, hw⟩ :=
      await_cases (w := w.park cx home i.nextSlot d) hd ⟨cx, i.nextSlot⟩
    · exact absurd hp hs
    · exact absurd hp hs
    · refine ⟨[.settle i.nextSlot cell.status cell.value], ?_, rfl, fun wake h =>
        ⟨d, List.mem_singleton.2 rfl, cell, _, hd, List.mem_singleton.1 h⟩⟩
      have hopen : (((w.park cx home i.nextSlot d).register cx).loopOf cx).isOpen :=
        (register_isOpen ..).trans ho
      rw [promise, hw, send,
        loopOf_modify_self (post_loops_of_isOpen _ hopen) (isSome_loop?_of_isOpen hopen),
        register_queue]
      rfl

theorem IsComplete.congr {d : DeferredId} (h : w'.deferreds = w.deferreds) (hd : w.IsComplete d) :
    w'.IsComplete d := by
  rw [IsComplete, deferred?, h]
  exact hd

theorem Tells.congr {d : DeferredId} {wake : Wake} (h : w'.deferreds = w.deferreds)
    (ht : w'.Tells d wake) : w.Tells d wake := by
  rw [Tells, deferred?, h] at ht
  exact ht

theorem promises_foldl (hb : (w.bridge? cx).isSome) (ho : (w.loopOf cx).isOpen)
    (hds : ∀ d ∈ ds, w.IsComplete d) : Promises cx ds w (ds.foldl (promiseTo cx) w) := by
  induction ds generalizing w with
  | nil => exact ⟨rfl, ho, fun h => h, [], (List.append_nil _).symm, rfl, nofun⟩
  | cons d ds ih =>
    obtain ⟨hd, hds⟩ := List.forall_mem_cons.1 hds
    have h := promises_promiseTo hb ho hd
    have h' := ih (isSome_bridge?_promiseTo hb d) h.isOpen fun d hd => (hds d hd).congr h.deferreds
    obtain ⟨new, hq, hn, ht⟩ := h.queue
    obtain ⟨new', hq', hn', ht'⟩ := h'.queue
    refine ⟨h'.deferreds.trans h.deferreds, h'.isOpen, fun hm => h'.matched (h.matched hm),
      new ++ new', ?_, ?_, fun wake hw => ?_⟩
    · rw [List.foldl_cons, hq', hq, List.append_assoc]
    · rw [List.length_append, hn, hn']
      exact Nat.add_comm ..
    · obtain hw | hw := List.mem_append.1 hw
      · obtain ⟨d', hd', ht⟩ := ht wake hw
        exact ⟨d', List.mem_singleton.1 hd' ▸ List.mem_cons_self .., ht⟩
      · obtain ⟨d', hd', ht⟩ := ht' wake hw
        exact ⟨d', List.mem_cons_of_mem _ hd', ht.congr h.deferreds⟩

theorem SameTraces.slots (h : SameTraces w w') (hb : (w.bridge? cx).isSome) :
    w'.slots cx = w.slots cx := by
  obtain ⟨⟨home, i⟩, hb⟩ := Option.isSome_iff_exists.1 hb
  obtain ⟨i', hb', hr, -⟩ := h.bridge? hb
  rw [slots_of_bridge? hb', slots_of_bridge? hb, hr]

theorem Leads.promises (h : Leads cx r ds w w') (hw : w.Ready cx r) (hds : ∀ d ∈ ds, w.IsComplete d) :
    Promises cx ds w w' := by
  have hp := promises_foldl hw.isSome_bridge? hw.isOpen hds
  have hloop := loopOf_congr h.traces.loops cx
  have hslots := h.traces.slots (isSome_bridge?_foldl hw.isSome_bridge? ds)
  obtain ⟨new, hq, ht⟩ := hp.queue
  refine ⟨h.traces.deferreds.trans hp.deferreds, hloop ▸ hp.isOpen, fun hm slot => ?_, new, ?_, ht⟩
  · rw [hslots, settling_congr (congrArg Loop.queue hloop)]
    exact hp.matched hm slot
  · rw [hloop, hq]

/-- The promises that are parked on the context are there. -/
def Attended (w : World) (cx : ContextId) : Prop :=
  ∀ b, w.bridge? cx = some b → ∀ e ∈ b.2.resolvers, (w.object? e.2).isSome

/-- A conversion brings no reaction. -/
theorem Leads.awaits (h : Leads cx r ds w w') (hb : (w.bridge? cx).isSome) (hp : w.Attended cx)
    {a : Reaction} (ha : w'.Awaits cx a) : w.Awaits cx a := by
  obtain ⟨⟨home, i⟩, hb⟩ := Option.isSome_iff_exists.1 hb
  obtain ⟨i', more, hb', hr, -, hnew⟩ := h.futures hb
  obtain ⟨b, hb'', e, he, o, reactions, ho, hk, ha⟩ := ha
  cases hb'.symm.trans hb''
  rw [hr] at he
  obtain he | he := List.mem_append.1 he
  · obtain ⟨o', ho'⟩ := Option.isSome_iff_exists.1 (hp _ hb e he)
    exact ⟨_, hb, e, he, o, reactions, (h.object? e.2 (object?_lt ho')).symm.trans ho, hk, ha⟩
  · cases ho.symm.trans (hnew e he)
    cases hk
    cases ha

end World

/-! ## Conversions -/

namespace Engine

open World

variable {w : World} {cx : ContextId} {r : Registry} {d : DeferredId}

/-- A deferred by itself converts to its promise. -/
theorem leads_toForeign_deferred (run : Runner) (hw : w.Ready cx r)
    (he : r.encoder? .deferred = some .deferred) (hd : (w.deferred? d).isSome) :
    Leads cx r [d] w ((toForeign run cx r (.deferred d)).after w) := by
  obtain ⟨cell, hd⟩ := Option.isSome_iff_exists.1 hd
  obtain ⟨p, w', hrun, hl, -⟩ := gives_promiseFor hw hd
  have hencode : (encode run cx r.maxBufferLength .deferred (.deferred d)).run w = .ok (.object p) w' :=
    run_bind_of_ok hrun
  have hconvert : (toForeign run cx r (.deferred d)).run w = .ok (.ok (.object p)) w' := by
    have hlist (items : List NativeValue) : NativeValue.deferred d ≠ .list items := by simp
    have hvariant (content : NativeValue) : NativeValue.deferred d ≠ .variant content := by simp
    rw [toForeign_eq run hlist hvariant he]
    exact run_bind_of_ok hencode
  rw [after_of_ok hconvert]
  exact hl

end Engine

/-! ## One delivery -/

namespace World

variable {w w' w₀ : World} {cx : ContextId} {r : Registry} {wake : Wake} {rest new : List Wake} {n : Nat}

/-- A wake was taken out of the queue, and its work has queued others behind the rest. -/
structure Advances (cx : ContextId) (r : Registry) (rest new : List Wake) (w w' : World) : Prop where
  deferreds : w'.deferreds = w.deferreds
  queue : (w'.loopOf cx).queue = rest ++ new
  matched : w'.Matched cx
  awaits : ∀ a, w'.Awaits cx a → w.Awaits cx a
  ready : w'.Ready cx r

theorem Advances.deferred? (h : Advances cx r rest new w w') (d : DeferredId) :
    w'.deferred? d = w.deferred? d := by
  rw [World.deferred?, h.deferreds, World.deferred?]

theorem Advances.unawaited (h : Advances cx r rest new w w') (hu : w.Unawaited cx) : w'.Unawaited cx :=
  fun d cell k hcell => hu d cell k ((h.deferred? d).symm.trans hcell)

/-- Being ready depends on the objects, on the bridge and on the loop. -/
theorem Ready.congr (h : w.Ready cx r) {home i i'} (hb : w.bridge? cx = some (home, i))
    (hb' : w'.bridge? cx = some (home, i')) (hr : i'.registry = i.registry)
    (hc : i'.classes = i.classes) (ho : w'.objects = w.objects)
    (hl : (w'.loopOf cx).isOpen = (w.loopOf cx).isOpen) : w'.Ready cx r := by
  obtain ⟨⟨home₀, i₀, hb₀, hr₀, hc₀⟩, hopen⟩ := h
  cases hb.symm.trans hb₀
  refine ⟨⟨home, i', hb', hr.trans hr₀, fun e he => (hc₀ e (hc ▸ he)).congr fun id _ => ?_⟩,
    hl.trans hopen⟩
  rw [object?, ho, object?]

theorem pop_queue (hq : (w.loopOf cx).queue = wake :: rest) :
    ((w.pop cx wake rest).loopOf cx).queue = rest := by
  have hs : (w.loop? cx).isSome := isSome_loop?_of_queue (by rw [hq]; exact List.cons_ne_nil _ _)
  rw [loopOf_modify_self (w.pop_loops cx wake rest) hs]

theorem pop_isOpen (w : World) (cx : ContextId) (wake : Wake) (rest : List Wake) :
    ((w.pop cx wake rest).loopOf cx).isOpen = (w.loopOf cx).isOpen :=
  loopOf_modify_part Loop.isOpen (w.pop_loops cx wake rest) (fun _ => rfl) cx

/-- A wake that settles nothing is taken. -/
theorem advances_pop (hw : w.Ready cx r) (hm : w.Matched cx)
    (hq : (w.loopOf cx).queue = wake :: rest) (hs : ∀ slot, wake.settles slot = false)
    (held : List (List Ref)) : Advances cx r rest [] w { w.pop cx wake rest with held } := by
  obtain ⟨home, i, hb, -⟩ := hw.hosts
  have hb' : (w.pop cx wake rest).bridge? cx = some (home, i) :=
    (bridge?_congr (data?_pop ..) rfl).trans hb
  refine ⟨rfl, (pop_queue hq).trans (List.append_nil _).symm, fun slot => ?_, ?_, ?_⟩
  · have hcome := settling_pop hq slot
    rw [if_neg (Bool.eq_false_iff.1 (hs slot)), Nat.add_zero] at hcome
    have hslots : (w.pop cx wake rest).slots cx = w.slots cx :=
      slots_congr (data?_pop ..) fun _ _ => rfl
    exact (congrArg (List.count slot) hslots).trans ((hm slot).trans hcome.symm)
  · rintro a ⟨b, hb'', h⟩
    cases hb'.symm.trans hb''
    exact ⟨_, hb, h⟩
  · exact hw.congr hb hb' rfl rfl rfl (w.pop_isOpen cx wake rest)

theorem bridge?_vacate {home i} (hb : w.bridge? cx = some (home, i)) (wake : Wake) (rest : List Wake)
    (slot : Nat) (p : ObjectId) : ((w.pop cx wake rest).vacate cx home slot p).bridge? cx =
      some (home, { i with resolvers := i.resolvers.filter (·.1 ≠ slot) }) := by
  have hb₁ : (w.pop cx wake rest).bridge? cx = some (home, i) :=
    (bridge?_congr (data?_pop ..) rfl).trans hb
  obtain ⟨hd, hi⟩ := bridge?_eq_some.1 hb₁
  have hi' := installation?_modify (vacate_installations (w.pop cx wake rest) cx home slot p) hi
  rw [if_pos rfl] at hi'
  exact bridge?_eq_some.2 ⟨hd, hi'⟩

/-- A settlement that is taken finds its promise, which is not parked any more. -/
theorem advances_vacate (hw : w.Ready cx r) (hm : w.Matched cx) (hn : Slotted w) {slot status v}
    (hq : (w.loopOf cx).queue = .settle slot status v :: rest) {home i}
    (hb : w.bridge? cx = some (home, i)) (p : ObjectId) (held : List (List Ref)) :
    Advances cx r rest [] w
      { (w.pop cx (.settle slot status v) rest).vacate cx home slot p with held } := by
  have hb' := bridge?_vacate hb (.settle slot status v) rest slot p
  refine ⟨rfl, (pop_queue hq).trans (List.append_nil _).symm, fun s => ?_, ?_, ?_⟩
  · have hcome := settling_pop hq s
    simp only [Wake.settles, decide_eq_true_eq] at hcome
    have hnodup := List.nodup_iff_count_le_one.1 (hn.resolver_nodup (bridge?_eq_some.1 hb).2) s
    have hms := hm s
    rw [slots_of_bridge? hb] at hms
    refine (congrArg (List.count s) (slots_of_bridge? hb')).trans ?_
    refine (count_filter_slot i.resolvers slot s).trans ?_
    change _ = (w.pop cx (.settle slot status v) rest).settling cx s
    split
    · next hs =>
      rw [if_pos hs] at hcome
      omega
    · next hs =>
      rw [if_neg hs] at hcome
      omega
  · rintro a ⟨b, hb'', e, he, h⟩
    cases hb'.symm.trans hb''
    exact ⟨_, hb, e, (List.mem_filter.1 he).1, h⟩
  · exact hw.congr hb hb' rfl rfl rfl (w.pop_isOpen cx (.settle slot status v) rest)

/-- A conversion queues a wake for each deferred that it gives a promise, if these are complete. -/
theorem Advances.convert {w₁ : World} {ds : List DeferredId} (h : Advances cx r rest [] w w₁)
    (hl : Leads cx r ds w₁ w') (hds : ∀ d ∈ ds, w.IsComplete d) (hp : w₁.Attended cx) :
    ∃ new, Advances cx r rest new w w' ∧ new.length = ds.length ∧
      ∀ wake ∈ new, ∃ d ∈ ds, w.Tells d wake := by
  have hpromises := hl.promises h.ready fun d hd => (hds d hd).congr h.deferreds
  obtain ⟨new, hq, hn, ht⟩ := hpromises.queue
  refine ⟨new, ⟨hpromises.deferreds.trans h.deferreds, ?_, hpromises.matched h.matched, ?_, hl.ready⟩,
    hn, fun wake hwake => ?_⟩
  · rw [hq, h.queue, List.append_nil]
  · exact fun a ha => h.awaits a (hl.awaits h.ready.isSome_bridge? hp ha)
  · obtain ⟨d, hd, ht⟩ := ht wake hwake
    exact ⟨d, hd, ht.congr h.deferreds⟩

/-- All that is queued settles promises of deferreds that are complete, as they were in the world `w₀`, and
the code that is run on the way leaves the loop alone. -/
structure Draining (n : Nat) (cx : ContextId) (r : Registry) (w₀ w : World) : Prop where
  reachable : Reachable w
  ready : w.Ready cx r
  unawaited : w.Unawaited cx
  matched : w.Matched cx
  calm : ∀ wake ∈ (w.loopOf cx).queue, wake.Calm (Session.runner n) cx
  idle : ∀ a, w.Awaits cx a → a.Idle (Session.runner n) cx
  complete : ∀ d, w.Involves cx d → w.IsComplete d
  same : ∀ d, w.Involves cx d → w.deferred? d = w₀.deferred? d

/-- A settlement finds its promise, which then is not parked any more. -/
theorem Draining.unpark (h : Draining n cx r w₀ w) {slot status v}
    (hq : (w.loopOf cx).queue = .settle slot status v :: rest) (held : List (List Ref)) :
    ∃ p w₁, (Engine.runWake (Session.runner n) cx (.settle slot status v)).run
        { w.pop cx (.settle slot status v) rest with held } =
          (Engine.settleFuture (Session.runner n) cx r p status v).run w₁ ∧
      Advances cx r rest [] w w₁ ∧ w₁.objects = w.objects ∧ w₁.Attended cx ∧
      (w.object? p).isSome ∧ ∀ o reactions, w.object? p = some o →
        o.kind = .promise (.pending reactions) → ∀ a ∈ reactions, w.Awaits cx a := by
  obtain ⟨home, i, hb, rfl, -⟩ := h.ready.hosts
  have hi := (bridge?_eq_some.1 hb).2
  have hslot : slot ∈ i.resolvers.map (·.1) := by
    have hcome := settling_pop hq slot
    have hmatched := h.matched slot
    rw [Wake.settles, if_pos (decide_eq_true rfl)] at hcome
    rw [slots_of_bridge? hb] at hmatched
    exact List.count_pos_iff.1 (by omega)
  obtain ⟨p, hp⟩ := parked?_of_mem hi hslot
  obtain ⟨e, he, -, rfl⟩ := mem_of_parked? hi hp
  have hbpop : (w.pop cx (.settle slot status v) rest).bridge? cx = some (home, i) :=
    (bridge?_congr (data?_pop ..) rfl).trans hb
  have hppop : (w.pop cx (.settle slot status v) rest).parked? home slot = some e.2 := hp
  obtain ⟨held', hunpark⟩ := Engine.run_unpark hbpop slot held
  rw [World.unpark, hppop] at hunpark
  refine ⟨e.2, _, Engine.run_bind_of_ok hunpark,
    advances_vacate h.ready h.matched h.reachable.slotted hq hb e.2 held', rfl, fun b hb₁ e' he' => ?_,
    h.reachable.parked.isSome hi he, fun o reactions ho hk a ha =>
      ⟨_, hb, e, he, o, reactions, ho, hk, ha⟩⟩
  have hvacate := bridge?_vacate hb (.settle slot status v) rest slot e.2
  cases hvacate.symm.trans hb₁
  exact h.reachable.parked.isSome hi (List.mem_filter.1 he').1

/-- **A settlement**: if its value converts with promises for some deferreds, it queues a wake for each of
them, and the rest of the delivery leaves the loop alone. -/
theorem Draining.settles (h : Draining n cx r w₀ w) {slot status v}
    (hq : (w.loopOf cx).queue = .settle slot status v :: rest) {Q : List DeferredId → Prop}
    (hQ : ∀ ds, Q ds → ∀ d ∈ ds, .deferred d ∈ v.refs)
    (hconvert : ∀ w₁, w₁.Ready cx r → w₁.deferreds = w.deferreds →
      ∃ ds, Q ds ∧ Leads cx r ds w₁ ((Engine.toForeign (Session.runner n) cx r v).after w₁)) :
    ∃ w' ds new, Q ds ∧ Advances cx r rest new w w' ∧ new.length = ds.length ∧
      (∀ wake ∈ new, ∃ d ∈ ds, w.Tells d wake) ∧
      Idles cx w' ((Engine.deliverNext (Session.runner n) cx).after w) := by
  have hrest : Idles cx _ ((Engine.deliverNext (Session.runner n) cx).after w) :=
    Idles.deliverNext hq
  obtain ⟨p, w₁, hrun, ha, hobjects, hattended, hp, hawaits⟩ := h.unpark hq ([] :: w.held)
  obtain ⟨ds, hds, hl⟩ := hconvert w₁ ha.ready ha.deferreds
  have hwake : .settle slot status v ∈ (w.loopOf cx).queue := hq ▸ List.mem_cons_self ..
  have hcomplete (d : DeferredId) (hd : d ∈ ds) : w.IsComplete d :=
    h.complete d (Queues.involves ⟨_, hwake, hQ ds hds d hd⟩)
  obtain ⟨new, ha', hn, ht⟩ := ha.convert hl hcomplete hattended
  rw [Engine.after, hrun] at hrest
  refine ⟨_, ds, new, hds, ha', hn, ht, trans_of _ (Idles.settleFuture ?_) hrest⟩
  -- the conversion leaves the promise with its reactions
  intro o reactions ho hk a ha
  obtain ⟨o', ho'⟩ := Option.isSome_iff_exists.1 hp
  have hsame : w₁.object? p = w.object? p := by rw [object?, hobjects, object?]
  rw [hl.object? p (object?_lt (hsame.trans ho')), hsame] at ho
  exact h.idle a (hawaits o reactions ho hk a ha)

/-- **The work of a wake** queues those that the wake prompts, and the rest of the delivery leaves the loop
alone. -/
theorem Draining.advances (h : Draining n cx r w₀ w) (hq : (w.loopOf cx).queue = wake :: rest) :
    ∃ w' new, Advances cx r rest new w w' ∧ (∀ wake' ∈ new, w.Prompts wake wake') ∧
      Idles cx w' ((Engine.deliverNext (Session.runner n) cx).after w) := by
  have hcalm := h.calm wake (hq ▸ List.mem_cons_self ..)
  cases wake with
  | event token args => exact hcalm.elim
  | script label body =>
    exact ⟨_, [], advances_pop h.ready h.matched hq (fun _ => rfl) ([] :: w.held), nofun,
      trans_of _ (hcalm _) (Idles.deliverNext hq)⟩
  | settle slot status v =>
    obtain ⟨w', ds, new, hds, ha, -, ht, hi⟩ := h.settles hq (fun _ h => h) fun w₁ hw _ =>
      Engine.leads_toForeign (Session.runner n) hw v
    refine ⟨w', new, ha, fun wake' hm => ?_, hi⟩
    obtain ⟨d, hd, ht⟩ := ht wake' hm
    exact ⟨d, hds d hd, ht⟩

namespace Draining

/-- What a wake prompts leads to nothing that was not in the queue before. -/
theorem involves (h : Advances cx r rest new w w') (hq : (w.loopOf cx).queue = wake :: rest)
    (hnew : ∀ wake' ∈ new, w.Prompts wake wake') {d : DeferredId} (hd : w'.Involves cx d) :
    w.Involves cx d := by
  refine hd.induction (P := w.Involves cx) (fun d hd => ?_) fun d d' _ hd he => ?_
  · obtain ⟨wake', hm, hd⟩ := hd
    rw [h.queue] at hm
    obtain hm | hm := List.mem_append.1 hm
    · exact Queues.involves ⟨wake', hq ▸ List.mem_cons_of_mem _ hm, hd⟩
    · obtain ⟨d₀, hd₀, cell, slot, hcell, rfl⟩ := hnew wake' hm
      exact (Queues.involves ⟨wake, hq ▸ List.mem_cons_self .., hd₀⟩).encloses ⟨cell, hcell, hd⟩
  · obtain ⟨cell, hcell, hm⟩ := he
    rw [deferred?, h.deferreds] at hcell
    exact hd.encloses ⟨cell, hcell, hm⟩

theorem advance (h : Draining n cx r w₀ w) (ha : Advances cx r rest new w w')
    (hq : (w.loopOf cx).queue = wake :: rest) (hnew : ∀ wake' ∈ new, w.Prompts wake wake') {w''}
    (hu : Undisturbed cx w' w'') (hr : Reachable w'') : Draining n cx r w₀ w'' := by
  have hinvolves (d : DeferredId) (hd : w''.Involves cx d) :
      w.Involves cx d ∧ w''.deferred? d = w.deferred? d := by
    have hd' := hu.involves_iff.1 hd
    exact ⟨involves ha hq hnew hd', (hu.involves d hd').trans (ha.deferred? d)⟩
  refine ⟨hr, hu.ready r ha.ready, hu.unawaited, fun slot => ?_, fun wake' hm => ?_,
    fun a hw => h.idle a (ha.awaits a (hu.awaits a hw)), fun d hw => ?_, fun d hw => ?_⟩
  · rw [hu.slots, settling_congr hu.queue]
    exact ha.matched slot
  · rw [hu.queue, ha.queue] at hm
    obtain hm | hm := List.mem_append.1 hm
    · exact h.calm wake' (hq ▸ List.mem_cons_of_mem _ hm)
    · obtain ⟨d, -, cell, slot, -, rfl⟩ := hnew wake' hm
      trivial
  · obtain ⟨hw, hd⟩ := hinvolves d hw
    obtain ⟨cell, hcell, hs⟩ := h.complete d hw
    exact ⟨cell, hd.trans hcell, hs⟩
  · obtain ⟨hw, hd⟩ := hinvolves d hw
    exact hd.trans (h.same d hw)

/-- **A delivery** takes a wake out of the queue and puts those behind the rest that it prompts. -/
theorem deliverNext (h : Draining n cx r w₀ w) (hq : (w.loopOf cx).queue = wake :: rest) :
    let w' := (Engine.deliverNext (Session.runner n) cx).after w
    Draining n cx r w₀ w' ∧ ∃ new, (w'.loopOf cx).queue = rest ++ new ∧
      ∀ wake' ∈ new, w₀.Prompts wake wake' := by
  intro w'
  obtain ⟨w₁, new, ha, hnew, hi⟩ := h.advances hq
  have hactive : Active w w' := Conserves.deliverNext (runs n) w
  obtain ⟨hm, -⟩ := hactive h.reachable
  have hu : Undisturbed cx w₁ w' := hi (ha.unawaited h.unawaited)
  refine ⟨h.advance ha hq hnew hu (h.reachable.moves hm), new, hu.queue.trans ha.queue,
    fun wake' hw => ?_⟩
  obtain ⟨d, hd, cell, slot, hcell, he⟩ := hnew wake' hw
  have hinvolves := Queues.involves ⟨wake, hq ▸ List.mem_cons_self .., hd⟩
  exact ⟨d, hd, cell, slot, (h.same d hinvolves).symm.trans hcell, he⟩

/-- **A deferred that is its own value** is promised again when a promise of it is settled. -/
theorem recurs (h : Draining n cx r w₀ w) {d : DeferredId}
    (he : r.encoder? .deferred = some .deferred)
    (hd : ∃ cell, w₀.deferred? d = some cell ∧ cell.value = .deferred d)
    (hq : ∃ slot status, .settle slot status (.deferred d) ∈ (w.loopOf cx).queue) :
    ∃ slot status, .settle slot status (.deferred d) ∈
      (((Engine.deliverNext (Session.runner n) cx).after w).loopOf cx).queue := by
  obtain ⟨slot, status, hmem⟩ := hq
  obtain ⟨wake, rest, hq⟩ := List.exists_cons_of_ne_nil (List.ne_nil_of_mem hmem)
  have hinvolves : w.Involves cx d := Queues.involves ⟨_, hmem, List.mem_singleton.2 rfl⟩
  rw [hq] at hmem
  obtain rfl | hmem := List.mem_cons.1 hmem
  · have hconvert (w₁ : World) (hw : w₁.Ready cx r) (hdeferreds : w₁.deferreds = w.deferreds) :
        ∃ ds, ds = [d] ∧ Leads cx r ds w₁
          ((Engine.toForeign (Session.runner n) cx r (.deferred d)).after w₁) := by
      obtain ⟨cell, hcell, -⟩ := (h.complete d hinvolves).congr hdeferreds
      exact ⟨_, rfl, Engine.leads_toForeign_deferred _ hw he (Option.isSome_iff_exists.2 ⟨cell, hcell⟩)⟩
    obtain ⟨w', ds, new, rfl, ha, hn, ht, hi⟩ := h.settles hq (Q := (· = [d]))
      (fun ds hds d' hd' => by
        rw [hds, List.mem_singleton] at hd'
        exact hd' ▸ List.mem_singleton.2 rfl) hconvert
    obtain ⟨wake', rfl⟩ := List.length_eq_one_iff.1 hn
    obtain ⟨d', hd', cell, slot', hcell, rfl⟩ := ht wake' (List.mem_singleton.2 rfl)
    cases List.mem_singleton.1 hd'
    obtain ⟨cell', hcell', hv⟩ := hd
    cases (hcell.symm.trans (h.same d hinvolves)).trans hcell'
    have hu := hi (ha.unawaited h.unawaited)
    refine ⟨slot', cell.status, ?_⟩
    rw [hu.queue, ha.queue, hv]
    exact List.mem_append_right _ (List.mem_singleton.2 rfl)
  · obtain ⟨-, new, hq', -⟩ := h.deliverNext hq
    exact ⟨slot, status, hq' ▸ List.mem_append_left _ hmem⟩

end Draining

end World

end Isthmus
