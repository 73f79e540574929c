import Isthmus.Proofs.Lifetime.Release
import Isthmus.Proofs.Run.Session
import Isthmus.Proofs.Values.Traces

/-!
# Proofs/Pumping/Idle — what leaves the loop of a context alone

A delivery does more than settle a promise: its reactions run, a throw is reported, and things without an
owner go.  `World.Idles` holds where none of this concerns the loop of a context: its queue, its parked
promises and the deferreds that queued values lead to stay as they are.

Nothing that goes can disturb a loop as long as no promise of the context waits for a deferred
(`World.Idles.release`).  So all that a delivery changes about the loop, it changes with the work that its
wake asks for (`World.Idles.deliverNext`), and after a settlement has converted its value it changes nothing
more (`World.Idles.settleFuture`).
-/

namespace Isthmus

/-- What looking up properties sees of an object. -/
def Object.face (o : Object) : ContextId × Bool × Option ObjectId × List (String × Property) :=
  (o.context, o.isFunction, o.prototype, o.properties)

namespace World

variable {w w' : World} {cx : ContextId}

/-! ## What a queue leads to -/

/-- The value of a deferred holds another deferred. -/
def Encloses (w : World) (d d' : DeferredId) : Prop :=
  ∃ cell, w.deferred? d = some cell ∧ .deferred d' ∈ cell.value.refs

/-- A wake that is queued for the context carries the deferred. -/
def Queues (w : World) (cx : ContextId) (d : DeferredId) : Prop :=
  ∃ wake ∈ (w.loopOf cx).queue, .deferred d ∈ wake.refs

/-- The deferred is in a queued value, or in the value of one that is, and so on. -/
def Involves (w : World) (cx : ContextId) (d : DeferredId) : Prop :=
  ∃ d₀, w.Queues cx d₀ ∧ Relation.ReflTransGen w.Encloses d₀ d

/-- A deferred that is queued is involved. -/
theorem Queues.involves {d : DeferredId} (h : w.Queues cx d) : w.Involves cx d :=
  ⟨d, h, .refl⟩

/-- So is one inside of it. -/
theorem Involves.encloses {d d' : DeferredId} (h : w.Involves cx d) (hc : w.Encloses d d') :
    w.Involves cx d' :=
  let ⟨d₀, hq, hp⟩ := h
  ⟨d₀, hq, hp.tail hc⟩

/-- What holds of what is queued, and of what is inside, holds of all that is involved. -/
theorem Involves.induction {P : DeferredId → Prop} (queued : ∀ d, w.Queues cx d → P d)
    (enclosed : ∀ d d', w.Involves cx d → P d → w.Encloses d d' → P d') {d : DeferredId}
    (h : w.Involves cx d) : P d := by
  obtain ⟨d₀, hq, hp⟩ := h
  induction hp with
  | refl => exact queued d₀ hq
  | tail hp hc ih => exact enclosed _ _ ⟨d₀, hq, hp⟩ ih hc

/-- What a queued wake refers to is owned. -/
theorem mem_references_of_queue {wake : Wake} (h : wake ∈ (w.loopOf cx).queue) :
    wake.refs ⊆ w.references := by
  intro x hx
  obtain ⟨l, hl⟩ := Option.isSome_iff_exists.1 (isSome_loop?_of_queue (List.ne_nil_of_mem h))
  have hmem : wake ∈ l.queue := by rwa [loopOf, hl, Option.getD_some] at h
  have hm : x ∈ w.loops.values.flatMap fun l => l.queue.flatMap Wake.refs :=
    List.mem_flatMap.2 ⟨l, Store.mem_values.2 ⟨cx.index, hl⟩, List.mem_flatMap.2 ⟨wake, hmem, hx⟩⟩
  simp only [references, List.mem_append, hm, true_or, or_true]

/-- What a queue leads to has an owner. -/
theorem Involves.mem_references {d : DeferredId} (h : w.Involves cx d) : .deferred d ∈ w.references := by
  refine h.induction (P := fun d => .deferred d ∈ w.references) ?_ ?_
  · rintro d ⟨wake, hm, hd⟩
    exact mem_references_of_queue hm hd
  · rintro d d' - - ⟨cell, hcell, hd⟩
    have hm : .deferred d' ∈ w.deferreds.values.flatMap fun d => d.value.refs :=
      List.mem_flatMap.2 ⟨cell, Store.mem_values.2 ⟨d.index, hcell⟩, hd⟩
    simp only [references, List.mem_append, hm, true_or, or_true]

/-! ## What a class shows -/

/-- Everything that has an owner shows the same. -/
def SameFaces (w w' : World) : Prop :=
  ∀ id, .object id ∈ w.references → (w'.object? id).map (·.face) = (w.object? id).map (·.face)

/-- What an object shows is owned. -/
theorem mem_references_of_lookup {id : ObjectId} {name : String} {p own}
    (h : w.lookup id name = some (p, own)) : p.refs ⊆ w.references := by
  induction hn : id.index using Nat.strongRecOn generalizing id own with
  | ind n ih =>
    subst hn
    rw [World.lookup] at h
    split at h
    · cases h
    · next o ho =>
      split at h
      · next p' hp =>
        cases h
        intro x hx
        refine mem_references_of_object ho (List.mem_append_right _ (List.mem_append_right _ ?_))
        exact List.mem_flatMap.2 ⟨_, Object.mem_of_own? hp, hx⟩
      · split at h
        · cases h
        · next proto _ =>
          split at h
          · next hlt =>
            obtain ⟨⟨p', own'⟩, hl, he⟩ := Option.map_eq_some_iff.1 h
            cases he
            exact ih proto.index hlt hl rfl
          · cases h

namespace SameFaces

/-- The faces of objects that are owned stay. -/
theorem object (h : SameFaces w w') {id : ObjectId} {o} (hr : .object id ∈ w.references)
    (ho : w.object? id = some o) : ∃ o', w'.object? id = some o' ∧ o'.face = o.face := by
  have h := h id hr
  rw [ho] at h
  exact Option.map_eq_some_iff.1 h

/-- So does what is found on them. -/
theorem lookup (h : SameFaces w w') {id : ObjectId} (hr : .object id ∈ w.references)
    (name : String) : w'.lookup id name = w.lookup id name := by
  induction hn : id.index using Nat.strongRecOn generalizing id with
  | ind n ih =>
    subst hn
    rw [World.lookup, World.lookup]
    cases ho : w.object? id with
    | none =>
      have ho' := h id hr
      rw [ho, Option.map_none, Option.map_eq_none_iff] at ho'
      rw [ho']
    | some o =>
      obtain ⟨o', ho', hf⟩ := h.object hr ho
      have hproto : o'.prototype = o.prototype := congrArg (·.2.2.1) hf
      have hproperties : o'.properties = o.properties := congrArg (·.2.2.2) hf
      have hown : o'.own? name = o.own? name := by rw [Object.own?, hproperties, Object.own?]
      rw [ho']
      dsimp only
      rw [hown, hproto]
      cases o.own? name with
      | some p => rfl
      | none =>
        cases hp : o.prototype with
        | none => rfl
        | some proto =>
          dsimp only
          by_cases hlt : proto.index < id.index
          · rw [if_pos hlt, if_pos hlt, ih proto.index hlt (mem_references_of_prototype ho hp) rfl]
          · rw [if_neg hlt, if_neg hlt]

/-- A class that has an owner stays one. -/
theorem isClass (h : SameFaces w w') {c : ObjectId} (hr : .object c ∈ w.references)
    (hc : w.IsClass cx c) : w'.IsClass cx c := by
  obtain ⟨⟨o, ho, hcx, hf⟩, hplain⟩ := hc
  obtain ⟨o', ho', hface⟩ := h.object hr ho
  have hcx' : o'.context = o.context := congrArg (·.1) hface
  have hf' : o'.isFunction = o.isFunction := congrArg (·.2.1) hface
  refine ⟨⟨o', ho', hcx'.trans hcx, hf'.trans hf⟩, fun p own hp => ?_⟩
  rw [h.lookup hr] at hp
  obtain hget | ⟨v, writable, enumerable, rfl, hv⟩ := hplain p own hp
  · exact .inl hget
  · refine .inr ⟨v, writable, enumerable, rfl, ?_⟩
    rintro id rfl
    obtain ⟨o, ho, hcx⟩ := hv id rfl
    obtain ⟨o', ho', hface⟩ := h.object (mem_references_of_lookup hp (List.mem_singleton.2 rfl)) ho
    have hcx' : o'.context = o.context := congrArg (·.1) hface
    exact ⟨o', ho', hcx'.trans hcx⟩

end SameFaces

/-! ## Idling -/

/-- The reaction waits for a promise that is parked on the context. -/
def Awaits (w : World) (cx : ContextId) (a : Reaction) : Prop :=
  ∃ b, w.bridge? cx = some b ∧ ∃ e ∈ b.2.resolvers, ∃ o reactions, w.object? e.2 = some o ∧
    o.kind = .promise (.pending reactions) ∧ a ∈ reactions

/-- No promise of the context waits for a deferred. -/
def Unawaited (w : World) (cx : ContextId) : Prop :=
  ∀ d cell k, w.deferred? d = some cell → cell.abandoned = some k → k.context ≠ cx

/-- The loop of a context and its bridge stay as they are. -/
structure Undisturbed (cx : ContextId) (w w' : World) : Prop where
  queue : (w'.loopOf cx).queue = (w.loopOf cx).queue
  slots : w'.slots cx = w.slots cx
  involves : ∀ d, w.Involves cx d → w'.deferred? d = w.deferred? d
  awaits : ∀ a, w'.Awaits cx a → w.Awaits cx a
  ready : ∀ r, w.Ready cx r → w'.Ready cx r
  unawaited : w'.Unawaited cx

/-- The loop of a context is left alone, unless a promise of the context waits for a deferred, which then
may be dropped. -/
def Idles (cx : ContextId) (w w' : World) : Prop :=
  w.Unawaited cx → Undisturbed cx w w'

/-- The queue leads to the same deferreds. -/
theorem Undisturbed.involves_iff (h : Undisturbed cx w w') {d : DeferredId} :
    w'.Involves cx d ↔ w.Involves cx d := by
  have hqueues (d : DeferredId) : w'.Queues cx d ↔ w.Queues cx d := by rw [Queues, h.queue, Queues]
  constructor
  · refine fun hd => hd.induction (fun d hq => ((hqueues d).1 hq).involves) fun d d' _ hd hc => ?_
    obtain ⟨cell, hcell, hm⟩ := hc
    exact hd.encloses ⟨cell, (h.involves d hd).symm.trans hcell, hm⟩
  · refine fun hd => hd.induction (fun d hq => ((hqueues d).2 hq).involves) fun d d' hw hd hc => ?_
    obtain ⟨cell, hcell, hm⟩ := hc
    exact hd.encloses ⟨cell, (h.involves d hw).trans hcell, hm⟩

instance : IsPreorder World (Idles cx) where
  refl _ hu := ⟨rfl, rfl, fun _ _ => rfl, fun _ h => h, fun _ h => h, hu⟩
  trans _ _ _ h h' hu := by
    have h := h hu
    have h' := h' h.unawaited
    exact ⟨h'.queue.trans h.queue, h'.slots.trans h.slots,
      fun d hd => (h'.involves d (h.involves_iff.2 hd)).trans (h.involves d hd),
      fun a ha => h.awaits a (h'.awaits a ha), fun r hr => h'.ready r (h.ready r hr), h'.unawaited⟩

/-- What conversions and promises need of a bridge. -/
def port (b : InstallationId × Installation) :
    Registry × List (ClassKey × ObjectId) × List (Nat × ObjectId) :=
  (b.2.registry, b.2.classes, b.2.resolvers)

/-- The port of a bridge stays, so the bridge does. -/
theorem bridge?_of_port (h : (w'.bridge? cx).map port = (w.bridge? cx).map port) {b}
    (hb : w.bridge? cx = some b) : ∃ b', w'.bridge? cx = some b' ∧ port b' = port b := by
  rw [hb] at h
  exact Option.map_eq_some_iff.1 h

/-- So do its slots. -/
theorem slots_of_port (h : (w'.bridge? cx).map port = (w.bridge? cx).map port) :
    w'.slots cx = w.slots cx := by
  cases hb : w.bridge? cx with
  | none =>
    rw [hb, Option.map_none, Option.map_eq_none_iff] at h
    rw [slots_of_none h, slots_of_none hb]
  | some b =>
    obtain ⟨b', hb', hp⟩ := bridge?_of_port h hb
    have hr : b'.2.resolvers = b.2.resolvers := congrArg (·.2.2) hp
    rw [slots_of_bridge? hb, slots_of_bridge? hb', hr]

namespace Idles

/-- Objects may change, but no promise becomes pending and classes show the same. -/
theorem intro (hport : (w'.bridge? cx).map port = (w.bridge? cx).map port)
    (hqueue : (w'.loopOf cx).queue = (w.loopOf cx).queue)
    (hopen : (w'.loopOf cx).isOpen = (w.loopOf cx).isOpen)
    (hinvolves : ∀ d, w.Involves cx d → w'.deferred? d = w.deferred? d)
    (hold : ∀ d cell, w'.deferred? d = some cell → w.deferred? d = some cell)
    (hpending : ∀ p o reactions, w'.object? p = some o → o.kind = .promise (.pending reactions) →
      w.object? p = some o)
    (hfaces : SameFaces w w') : Idles cx w w' := by
  refine fun hu => ⟨hqueue, slots_of_port hport, hinvolves, ?_, ?_, fun d cell k hcell =>
    hu d cell k (hold d cell hcell)⟩
  · rintro a ⟨b', hb', e, he, o, reactions, ho, hkind, ha⟩
    obtain ⟨b, hb, hp⟩ := bridge?_of_port hport.symm hb'
    have hr : b.2.resolvers = b'.2.resolvers := congrArg (·.2.2) hp
    exact ⟨b, hb, e, hr ▸ he, o, reactions, hpending e.2 o reactions ho hkind, hkind, ha⟩
  · rintro r ⟨⟨id, i, hb, hr, hc⟩, ho⟩
    obtain ⟨⟨id', i'⟩, hb', hp⟩ := bridge?_of_port hport hb
    have hregistry : i'.registry = i.registry := congrArg (·.1) hp
    have hclasses : i'.classes = i.classes := congrArg (·.2.1) hp
    refine ⟨⟨id', i', hb', hregistry.trans hr, fun e he => ?_⟩, hopen.trans ho⟩
    rw [hclasses] at he
    have hmem : .object e.2 ∈ w.references :=
      mem_references_of_installation (bridge?_eq_some.1 hb).2
        (List.mem_append_left _ (List.mem_append_left _ (List.mem_map.2 ⟨e, he, rfl⟩)))
    exact hfaces.isClass hmem (hc e he)

/-- Objects and deferreds stay as they are. -/
theorem frame (hport : (w'.bridge? cx).map port = (w.bridge? cx).map port)
    (hqueue : (w'.loopOf cx).queue = (w.loopOf cx).queue)
    (hopen : (w'.loopOf cx).isOpen = (w.loopOf cx).isOpen) (ho : w'.objects = w.objects)
    (hd : w'.deferreds = w.deferreds) : Idles cx w w' := by
  have hdeferred (d : DeferredId) : w'.deferred? d = w.deferred? d := by
    rw [deferred?, hd, deferred?]
  have hobject (p : ObjectId) : w'.object? p = w.object? p := by rw [object?, ho, object?]
  exact intro hport hqueue hopen (fun d _ => hdeferred d)
    (fun d _ h => (hdeferred d).symm.trans h) (fun p _ _ h _ => (hobject p).symm.trans h)
    fun p _ => congrArg (Option.map (·.face)) (hobject p)

/-- What loops, bridges, objects and deferreds do not show. -/
theorem of_eq (hc : w'.data? cx = w.data? cx) (hi : w'.installations = w.installations)
    (hl : w'.loops = w.loops) (ho : w'.objects = w.objects) (hd : w'.deferreds = w.deferreds) :
    Idles cx w w' :=
  frame (by rw [bridge?_congr hc hi]) (by rw [loopOf_congr hl]) (by rw [loopOf_congr hl]) ho hd

/-! ## Things that go -/

/-- A change to an installation that leaves its port alone is not seen there. -/
theorem port_modify {home : InstallationId} {f : Installation → Installation}
    (h : w'.installations = w.installations.modify home.index f) (hd : w'.data? cx = w.data? cx)
    (hf : ∀ id i, port (id, f i) = port (id, i)) :
    (w'.bridge? cx).map port = (w.bridge? cx).map port := by
  cases hb : w.bridge? cx with
  | none =>
    refine Option.map_eq_none_iff.2 (Option.eq_none_iff_forall_ne_some.2 fun b hb' => ?_)
    obtain ⟨hd', hi'⟩ := bridge?_eq_some.1 hb'
    rw [installation?, h, Store.get?_modify] at hi'
    obtain ⟨i, hi⟩ : ∃ i, w.installation? b.1 = some i := by
      split at hi'
      · obtain ⟨i, hi, -⟩ := Option.map_eq_some_iff.1 hi'
        exact ⟨i, hi⟩
      · exact ⟨b.2, hi'⟩
    cases hb.symm.trans (bridge?_eq_some.2 ⟨hd.symm.trans hd', hi⟩)
  | some b =>
    obtain ⟨hd', hi⟩ := bridge?_eq_some.1 hb
    have hi' := installation?_modify h hi
    have hb' := bridge?_eq_some.2 ⟨hd.trans hd', hi'⟩
    rw [hb', Option.map_some, Option.map_some]
    split
    · exact congrArg some (hf ..)
    · rfl

/-- Forgetting callbacks is idle. -/
theorem prune (w : World) (id : InstallationId) : Idles cx w (w.prune id).1 := by
  have hport : ((w.prune id).1.bridge? cx).map port = (w.bridge? cx).map port := by
    rw [World.prune]
    split
    · rfl
    · exact port_modify (w.forget_installations id) rfl fun _ _ => rfl
  have hloop := (Aside.prune w id).loopOf cx
  exact frame hport (by rw [hloop]) (by rw [hloop]) (w.prune_objects id) (w.prune_deferreds id)

/-- An object that nobody owns may go. -/
theorem eraseObject {id : ObjectId} (hr : .object id ∉ w.references) :
    Idles cx w { w with objects := w.objects.erase id.index } := by
  refine intro rfl rfl rfl (fun _ _ => rfl) (fun _ _ h => h) (fun p o _ ho _ => ?_) fun p hp => ?_
  · rw [object?, Store.get?_erase] at ho
    split at ho
    · cases ho
    · exact ho
  · have hne : p.index ≠ id.index := fun h => hr (ObjectId.index_inj.1 h ▸ hp)
    rw [object?, Store.get?_erase, if_neg hne, object?]

/-- So may an installation. -/
theorem eraseInstallation {id : InstallationId} (hr : .installation id ∉ w.references) :
    Idles cx w { w with installations := w.installations.erase id.index } := by
  have hb : World.bridge? { w with installations := w.installations.erase id.index } cx =
      w.bridge? cx := by
    refine Option.ext fun b => ?_
    obtain ⟨home, i⟩ := b
    rw [bridge?_eq_some, bridge?_eq_some]
    refine and_congr_right fun hd => ?_
    have hne : home.index ≠ id.index := fun h =>
      hr (InstallationId.index_inj.1 h ▸ mem_references_of_data? hd)
    rw [installation?, Store.get?_erase, if_neg hne, installation?]
  exact frame (by rw [hb]) rfl rfl rfl rfl

/-- So may a deferred, with what is noted of its end. -/
theorem eraseDeferred {id : DeferredId} (hr : .deferred id ∉ w.references)
    (history : List Occurrence) :
    Idles cx w { w with deferreds := w.deferreds.erase id.index, history } := by
  refine intro rfl rfl rfl (fun d hw => ?_) (fun d cell h => ?_) (fun _ _ _ h _ => h) fun _ _ => rfl
  · have hne : d.index ≠ id.index := fun h => hr (DeferredId.index_inj.1 h ▸ hw.mem_references)
    rw [deferred?, Store.get?_erase, if_neg hne, deferred?]
  · rw [deferred?, Store.get?_erase] at h
    split at h
    · cases h
    · exact h

/-- What is queued for another context is none of this one's. -/
theorem post {c : ContextId} (hc : cx ≠ c) (w : World) (wake : Wake) :
    Idles cx w (w.post c wake).1 := by
  have hloop : (w.post c wake).1.loopOf cx = w.loopOf cx := by
    by_cases ho : (w.loopOf c).isOpen
    · exact loopOf_modify_of_ne (post_loops_of_isOpen wake ho) hc
    · rw [post_of_closed wake ho]
      exact loopOf_modify_of_ne (unregister_loops w c) hc
  have hposts := Posts.post w c wake
  generalize (w.post c wake).1 = w' at hloop hposts
  cases hposts with
  | _ => exact frame rfl (by rw [hloop]) (by rw [hloop]) rfl rfl

/-- **A thing without an owner** goes unnoticed. -/
theorem destroy {x : Ref} (hx : x ∉ w.references) : Idles cx w (w.destroy x).1 := by
  have hdestroys := w.destroys x
  generalize (w.destroy x).1 = w' at hdestroys ⊢
  cases hdestroys with
  | gone => exact refl_of _ w
  | object => exact eraseObject hx
  | handle | inst | source | storage => exact of_eq rfl rfl rfl rfl rfl
  | installation => exact eraseInstallation hx
  | @channels id c hc =>
    have hdisconnect : Idles cx w (w.disconnect id c) := of_eq rfl rfl rfl rfl rfl
    exact trans_of _ hdisconnect (prune _ _)
  | deferred hd ha => exact eraseDeferred hx w.history
  | @abandoned id d k hd ha =>
    have hexpire : Idles cx w (w.expire id) := eraseDeferred hx _
    exact fun hu => trans_of _ hexpire (post (hu id d k hd ha).symm _ _) hu

/-- **To release is idle**. -/
theorem release (w : World) (fs : List Farewell) : Idles cx w (w.release fs) :=
  release_induction (fun _ _ => of_eq rfl rfl rfl rfl rfl) (fun _ _ => destroy) w fs

/-! ## What happens in a delivery -/

/-- A promise that is settled is none that waits any more. -/
theorem fix {p : ObjectId} (hp : w.IsPending p) {state : PromiseState}
    (hs : ∀ reactions, state ≠ .pending reactions) : Idles cx w (w.fix p state) := by
  refine intro rfl rfl rfl (fun _ _ => rfl) (fun _ _ h => h) (fun q o reactions ho hk => ?_)
    fun q _ => ?_
  · rw [object?_fix] at ho
    split at ho
    · obtain ⟨o', -, rfl⟩ := Option.map_eq_some_iff.1 ho
      cases hk
      exact absurd rfl (hs reactions)
    · exact ho
  · rw [object?_fix]
    split
    · next hq =>
      obtain ⟨o, reactions, ho, hk⟩ := hp
      have hf : o.isFunction = false := by
        rw [Object.isFunction, Object.function?, hk]
        rfl
      rw [hq, ho]
      exact congrArg some (Prod.ext rfl (Prod.ext hf.symm rfl))
    · rfl

/-- The end of a delivery is idle. -/
theorem finish (w : World) (c : ContextId) (wake : Wake) (broke : Bool) :
    Idles cx w (w.finish c wake broke) := by
  have hb : (w.finish c wake broke).bridge? cx = w.bridge? cx :=
    bridge?_congr (data?_finish w c wake broke cx) rfl
  exact frame (by rw [hb]) (unregister_queue _ c cx) (unregister_isOpen _ c cx) rfl rfl

theorem hold {refs : List Ref} : Conserves (Idles cx) (Engine.hold refs) :=
  .modify fun _ => of_eq rfl rfl rfl rfl rfl

/-- A report is idle. -/
theorem reportException {c : ContextId} {v : ForeignValue} :
    Conserves (Idles cx) (Engine.reportException c v) := by
  have hreport (line : String) : Conserves (Idles cx) (Engine.report c line) := by
    let f (c : Context) : Context := { c with diagnostics := c.diagnostics ++ [line] }
    exact .modify fun w => of_eq (data?_modify (f := f) rfl (fun _ => rfl) cx) rfl rfl rfl rfl
  refine .bind (.bind .get fun w => ?_) hreport
  split
  · exact .pure
  · exact .throw

theorem closeFrame : Conserves (Idles cx) Engine.closeFrame := by
  intro w
  have hheld : Idles cx w { w with held := w.held.tail } := of_eq rfl rfl rfl rfl rfl
  exact trans_of _ hheld (release _ _)

end Idles

end World

/-! ## Reactions -/

/-- The reaction leaves the loop of a context alone, whatever it is run with. -/
def Reaction.Idle (run : Runner) (cx : ContextId) (a : Reaction) : Prop :=
  ∀ fulfilled v, Conserves (World.Idles cx) (run.react cx a fulfilled v)

/-- A wake that is no event, and whose script leaves the loop of a context alone. -/
def Wake.Calm (run : Runner) (cx : ContextId) : Wake → Prop
  | .settle .. => True
  | .event .. => False
  | .script label body => Conserves (World.Idles cx) (run.deliver cx label body)

namespace World.Idles

variable {w : World} {cx : ContextId} {run : Runner}

theorem observe {p : ObjectId} {e : PromiseEvent} : Conserves (Idles cx) (Engine.observe p e) :=
  .modify fun _ => of_eq rfl rfl rfl rfl rfl

/-- Idle reactions run idly. -/
theorem react {p : ObjectId} {fulfil : Bool} {v : ForeignValue} {reactions : List Reaction}
    (h : ∀ a ∈ reactions, a.Idle run cx) :
    Conserves (Idles cx) (reactions.forM (Engine.react run cx p · fulfil v)) := by
  induction reactions with
  | nil => exact .pure
  | cons a reactions ih =>
    obtain ⟨ha, h⟩ := List.forall_mem_cons.1 h
    exact .bind (.bind observe fun _ => .bind (ha fulfil v) fun _ => observe) fun _ => ih h

/-- Settling a promise whose reactions are idle. -/
theorem settle {p : ObjectId} {fulfil : Bool} {v : ForeignValue}
    (h : ∀ o reactions, w.object? p = some o → o.kind = .promise (.pending reactions) →
      ∀ a ∈ reactions, a.Idle run cx) :
    Idles cx w ((Engine.settle run cx p fulfil v).after w) := by
  cases ho : w.object? p with
  | none =>
    rw [Engine.after_of_error (Engine.run_settle_gone ho)]
    exact refl_of _ w
  | some o =>
    by_cases hp : w.IsPending p
    · obtain ⟨o, reactions, ho, hk⟩ := id hp
      have hfix : Idles cx w (w.fix p (Engine.outcome fulfil v)) :=
        fix hp (by cases fulfil <;> exact nofun)
      rw [Engine.after, Engine.run_settle ho hk]
      exact trans_of _ hfix (trans_of _ (observe _) (react (h o reactions ho hk) _))
    · rw [Engine.after_of_ok (Engine.run_settle_of_not_pending ho hp)]
      exact refl_of _ w

/-- **Once its value is converted**, a settlement leaves the loop alone. -/
theorem settleFuture {registry : Registry} {p : ObjectId} {status : DeferredStatus} {v : NativeValue}
    (h : ∀ o reactions, ((Engine.toForeign run cx registry v).after w).object? p = some o →
      o.kind = .promise (.pending reactions) → ∀ a ∈ reactions, a.Idle run cx) :
    Idles cx ((Engine.toForeign run cx registry v).after w)
      ((Engine.settleFuture run cx registry p status v).after w) := by
  have hattempt := Engine.run_attempt (Engine.toForeign run cx registry v) w
  cases hc : (Engine.toForeign run cx registry v).run w with
  | ok result w' =>
    rw [hc] at hattempt
    rw [Engine.after_of_ok hc] at h ⊢
    rw [Engine.after, Engine.settleFuture, Engine.run_bind_of_ok hattempt]
    cases result with
    | ok foreign => exact settle h
    | error e => exact settle h
  | error stop w' =>
    rw [hc] at hattempt
    rw [Engine.after_of_error hc] at h ⊢
    rw [Engine.after, Engine.settleFuture, Engine.run_bind_of_ok hattempt]
    cases stop with
    | thrown reason => exact settle h
    | _ => exact refl_of _ w'

/-! ## Deliveries -/

/-- What becomes of a throw that leaves the work of a delivery. -/
theorem runDelivery (wake : Wake) : Idles cx ((Engine.runWake run cx wake).after w)
    ((Engine.runDelivery run cx wake).after w) :=
  Engine.after_runDelivery (fun _ => .bind hold fun _ => reportException) w

/-- **What a delivery changes about the loop** is what the work of its wake changes. -/
theorem deliverNext {wake : Wake} {rest : List Wake} (hq : (w.loopOf cx).queue = wake :: rest) :
    Idles cx
      ((Engine.runWake run cx wake).after { w.pop cx wake rest with held := [] :: w.held })
      ((Engine.deliverNext run cx).after w) := by
  obtain ⟨broke, hafter⟩ : ∃ broke, (Engine.deliverNext run cx).after w = Engine.closeFrame.after
      (((Engine.runDelivery run cx wake).after { w.pop cx wake rest with held := [] :: w.held }).finish cx
        wake broke) := Engine.after_deliverNext hq
  rw [hafter]
  exact trans_of _ (runDelivery wake) (trans_of _ (finish _ cx wake broke) (closeFrame _))

end World.Idles

end Isthmus
