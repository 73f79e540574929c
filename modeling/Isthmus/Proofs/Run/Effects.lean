import Isthmus.Proofs.Run.Loops

/-!
# Proofs/Run/Effects — what a move can do

A law about all runs is kept by every move, but a law speaks of some part of the world only, and few moves
change that part.  For each part there is one lemma here that says which moves change it, and how:

* `Move.history` and `Move.arises` for the history,
* `Move.data` for what contexts carry,
* `Move.undertakes` for errands,
* `Move.installation` for installations,
* `Move.objects` for objects and promises.
-/

namespace Isthmus

open History

/-! ## The history grows -/

namespace World

variable {w w' : World}

/-- Registering and queueing only add to the history. -/
theorem Posts.history (h : Posts w w') : w.history <:+ w'.history := by
  cases h with
  | silent => exact List.suffix_rfl
  | aimed | queued | dropped => exact List.suffix_cons _ _

/-- So does the beginning of a delivery. -/
theorem Begins.history {cx wake} (h : Begins w cx wake w') : w.history <:+ w'.history := by
  cases h with
  | other h => exact List.suffix_rfl
  | unbridged h => exact List.suffix_rfl
  | missed hb hp => exact List.suffix_cons _ _
  | unparked hb hp => exact List.suffix_cons _ _

/-- Forgetting callbacks is noted, and nothing is taken back. -/
theorem prune_history (w : World) (id : InstallationId) : w.history <:+ (w.prune id).1.history := by
  rw [prune]
  split
  · exact List.suffix_rfl
  · exact List.suffix_cons _ _

theorem Destroys.history {r} (h : Destroys w r w') : w.history <:+ w'.history := by
  cases h with
  | channels hc => exact prune_history (w.disconnect _ _) _
  | abandoned hd ha => exact (List.suffix_cons _ _).trans (Posts.post (w.expire _) _ _).history
  | _ => exact List.suffix_rfl

theorem setSubscriber_history (w : World) (id : ChannelsId) (place : Nat) (home : InstallationId)
    (slot : Nat) (callback : Option ForeignValue) :
    w.history <:+ (w.setSubscriber id place home slot callback).1.history := by
  unfold setSubscriber
  split
  · exact List.suffix_rfl
  · exact (List.suffix_cons _ _).trans (prune_history (w.switch ..) _)
  · next f _ =>
    refine List.IsSuffix.trans ?_ (prune_history ((w.keepCallback home slot f).switch ..) _)
    exact (List.suffix_cons _ _).trans (List.suffix_cons _ _)

end World

/-- **No move takes back what happened.**. -/
theorem Move.history {w w' : World} (h : Move w w') : w.history <:+ w'.history := by
  cases h with
  | quiet h => exact h.history ▸ List.suffix_rfl
  | destroy r _ => exact (w.destroys r).history
  | closeContext cx => exact (List.suffix_cons _ _).trans (List.suffix_append _ _)
  | install | unbind | openScope | closeScope | hear | finish => exact List.suffix_cons _ _
  | determine h =>
    obtain ⟨d, -, -, -, hp⟩ := World.determine_posts h
    exact (List.suffix_cons _ _).trans hp.history
  | promise hb hd =>
    obtain ⟨-, hp⟩ | ⟨-, hp⟩ := w.promise_posts _ _ _ hd
    · exact (List.suffix_cons _ _).trans hp.history
    · exact (List.suffix_cons _ _).trans hp.history
  | setSubscriber id place callback hb => exact w.setSubscriber_history ..
  | aim args h => exact (World.Posts.aim w ..).history
  | arm h => exact (World.Posts.arm w ..).history
  | launch h => exact (World.Posts.launch w ..).history
  | take h =>
    obtain ⟨rest, -, rfl⟩ := World.take_cases h
    exact (List.suffix_cons _ _).trans (World.begins (w.pop _ _ rest) _ _).history
  | newTicket name h => exact (World.Posts.newTicket w ..).history
  | sendTicket h label body => exact (World.Posts.sendTicket w ..).history
  | _ => exact List.suffix_rfl

/-- What happened before a run is still there after it. -/
theorem Moves.history {w w' : World} (h : Moves w w') : w.history <:+ w'.history := by
  induction h with
  | refl => exact List.suffix_rfl
  | tail _ hm ih => exact ih.trans hm.history

/-! ## What contexts carry -/

namespace World

variable {w w' : World} {cx : ContextId}

/-- What a context carries for its host. -/
def data? (w : World) (cx : ContextId) : Option ContextData :=
  (w.context? cx).bind (·.data)

/-- A context has a bridge when it carries an installation that is there. -/
theorem bridge?_eq_some {id i} :
    w.bridge? cx = some (id, i) ↔ w.data? cx = some (.bridge id) ∧ w.installation? id = some i := by
  rw [bridge?, data?]
  cases w.context? cx with
  | none => simp
  | some c =>
    cases hd : c.data with
    | none => simp [hd]
    | some data =>
      cases data with
      | text value => simp [hd]
      | bridge id' =>
        cases hi : w.installation? id' with
        | none =>
          simp only [hd, hi, Option.bind_eq_bind, Option.bind_some, Option.bind_none,
            Option.some.injEq, ContextData.bridge.injEq, reduceCtorEq, false_iff, not_and]
          rintro rfl
          simp [hi]
        | some i' =>
          simp only [hd, hi, Option.bind_eq_bind, Option.bind_some, Option.pure_def,
            Option.some.injEq, Prod.mk.injEq, ContextData.bridge.injEq]
          constructor
          · rintro ⟨rfl, rfl⟩
            exact ⟨rfl, hi⟩
          · rintro ⟨rfl, h⟩
            exact ⟨rfl, Option.some.inj (hi.symm.trans h)⟩

/-- Which bridge a context has hangs on what it carries and on the installations alone. -/
theorem bridge?_congr (hd : w'.data? cx = w.data? cx) (hi : w'.installations = w.installations) :
    w'.bridge? cx = w.bridge? cx := by
  have h (id : InstallationId) : w'.installation? id = w.installation? id := by
    rw [installation?, installation?, hi]
  refine Option.ext fun b => ?_
  rw [bridge?_eq_some, bridge?_eq_some, hd, h]

/-- A change to a context that keeps what it carries is not seen there. -/
theorem data?_modify {f : Context → Context} (h : w'.contexts = w.contexts.modify cx.index f)
    (hf : ∀ c, (f c).data = c.data) (c : ContextId) : w'.data? c = w.data? c := by
  rw [data?, data?, context?, h, Store.get?_modify]
  split
  · rw [context?, Option.bind_map]
    congr 1
    exact funext hf
  · rfl

theorem data?_pop (w : World) (cx : ContextId) (wake : Wake) (rest : List Wake) (c : ContextId) :
    (w.pop cx wake rest).data? c = w.data? c := by
  have h : (w.pop cx wake rest).contexts =
      w.contexts.modify cx.index fun c => { c with depth := c.depth + 1 } := rfl
  exact data?_modify h (fun _ => rfl) c

theorem data?_finish (w : World) (cx : ContextId) (wake : Wake) (broke : Bool) (c : ContextId) :
    (w.finish cx wake broke).data? c = w.data? c := by
  have h : (w.finish cx wake broke).contexts =
      w.contexts.modify cx.index fun c => { c with depth := c.depth - 1 } := rfl
  exact data?_modify h (fun _ => rfl) c

theorem data?_openScope (w : World) (cx c : ContextId) : (w.openScope cx).data? c = w.data? c := by
  have h : (w.openScope cx).contexts =
      w.contexts.modify cx.index fun c => { c with depth := c.depth + 1 } := rfl
  exact data?_modify h (fun _ => rfl) c

theorem data?_closeScope (w : World) (cx c : ContextId) :
    (w.closeScope cx).data? c = w.data? c := by
  have h : (w.closeScope cx).contexts =
      w.contexts.modify cx.index fun c => { c with depth := c.depth - 1 } := rfl
  exact data?_modify h (fun _ => rfl) c

end World

/-! ## What happened -/

/-- **A new occurrence tells of its move.** -/
inductive Arises (w w' : World) : Occurrence → Prop where
  | installed {cx registry} (hc : (w.context? cx).isSome) (hw : w' = w.install cx registry) :
      Arises w w' (.installed cx ⟨w.installations.next⟩ registry)
  | unbound {cx} : Arises w w' (.unbound cx)
  | opened {cx} : Arises w w' (.opened cx)
  | closed {cx} : Arises w w' (.closed cx)
  | promised {cx home i id d} (hb : w.bridge? cx = some (home, i)) (hd : w.deferred? id = some d)
      (hw : w' = (w.promise cx home i.nextSlot id d).1)
      (hf : ∀ k p id', .promised k p id' ∈ w'.history → .promised k p id' ∈ w.history ∨
        k = ⟨cx, i.nextSlot⟩ ∧ p = ⟨w.objects.next⟩ ∧ id' = id) :
      Arises w w' (.promised ⟨cx, i.nextSlot⟩ ⟨w.objects.next⟩ id)
  /-- A producer was the first to complete the deferred. -/
  | completed {id status v} (h : w.determine id status v = some w') :
      Arises w w' (.completed id status v)
  /-- The last handle of the deferred is gone. -/
  | abandoned {id d k} (hr : .deferred id ∉ w.references) (hd : w.deferred? id = some d)
      (hk : d.abandoned = some k) :
      Arises w w' (.completed id .rejected Deferred.droppedReason)
  /-- What waited for the deferred hears that it is gone. -/
  | settling {id d k status v} (hd : w.deferred? id = some d) (hk : d.abandoned = some k)
      (ho : outcome? id w'.history = some (status, v)) :
      Arises w w' (.sent k.context (.settle k.slot status v))
  /-- The deferred was complete when it was promised. -/
  | ready {k p id d} (hp : .promised k p id ∈ w'.history) (hd : w.deferred? id = some d)
      (hs : d.status ≠ .pending) (ho : outcome? id w'.history = outcome? id w.history) :
      Arises w w' (.sent k.context (.settle k.slot d.status d.value))
  | aimed {id event cx token args} (h : w.subscriber? id event = some (cx, token))
      (hw : w' = w.aim cx token args) : Arises w w' (.aimed cx token args)
  /-- What a thread began to queue is queued. -/
  | launched {before after cx wake} (h : w.errands = before ++ .armed cx wake :: after)
      (hw : w' = (w.launch before after cx wake).1) : Arises w w' (.sent cx wake)
  | script {cx label body} : Arises w w' (.sent cx (.script label body))
  | taken {cx wake rest} (hq : (w.loopOf cx).queue = wake :: rest)
      (hw : w' = (w.pop cx wake rest).begin cx wake) : Arises w w' (.taken cx wake)
  | unparked {cx slot status v rest home i promise}
      (hq : (w.loopOf cx).queue = .settle slot status v :: rest)
      (hb : w.bridge? cx = some (home, i)) (hp : w.parked? home slot = some promise)
      (hw : w' = (w.pop cx (.settle slot status v) rest).begin cx (.settle slot status v)) :
      Arises w w' (.unparked ⟨cx, slot⟩ promise)
  | missed {cx slot status v rest home i} (hq : (w.loopOf cx).queue = .settle slot status v :: rest)
      (hb : w.bridge? cx = some (home, i)) (hp : w.parked? home slot = none) :
      Arises w w' (.missed ⟨cx, slot⟩)
  | subscribed {cx home i id c place f} (hb : w.bridge? cx = some (home, i))
      (hc : w.channels? id = some c)
      (hw : w' = (w.setSubscriber id place home i.nextSlot (some f)).1)
      (hf : ∀ t f', .subscribed t f' ∈ w'.history → .subscribed t f' ∈ w.history ∨ f' = f) :
      Arises w w' (.subscribed ⟨home, i.nextSlot⟩ f)
  | switched {id c cx home i} (hc : w.channels? id = some c) (hb : w.bridge? cx = some (home, i)) :
      Arises w w' (.switched home c.installation)
  | heard {cx token args verdict} (hu : w.undecided = some (cx, token, args))
      (h : Fair w cx token args verdict) (hw : w' = w.hear cx token args verdict) :
      Arises w w' (.heard cx token args verdict)
  | ended {cx wake rest broke} (hd : w.delivering = (cx, wake) :: rest) (hu : w.undecided = none)
      (hs : broke = false → ∀ slot status v, wake = .settle slot status v →
        ∃ p, .unparked ⟨cx, slot⟩ p ∈ w.history ∧ ¬ w.IsPending p)
      (hw : w' = w.finish cx wake broke) : Arises w w' (.ended cx wake broke)
  | dropped {cx wake} : Arises w w' (.dropped cx wake)
  | pruned {id} : Arises w w' (.pruned id)

namespace World

variable {w w' : World} {o : Occurrence}

/-- Queueing a wake notes at most that it was sent. -/
theorem mem_post {cx wake} (h : o ∈ (w.post cx wake).1.history) :
    o = .sent cx wake ∨ o ∈ w.history := by
  rw [post] at h
  split at h
  · exact List.mem_cons.1 h
  · exact .inr h

/-- Forgetting callbacks is all that it notes. -/
theorem mem_prune {id} (h : o ∈ (w.prune id).1.history) : o = .pruned id ∨ o ∈ w.history := by
  rw [prune] at h
  split at h
  · exact .inr h
  · exact List.mem_cons.1 h

/-- Registering and queueing decide nothing about a deferred. -/
theorem Posts.outcome? (h : Posts w w') (d : DeferredId) :
    History.outcome? d w'.history = History.outcome? d w.history := by
  cases h with
  | _ => rfl

/-- What happens when something is destroyed is one of the things that can happen. -/
theorem arises_destroy {r} (hr : r ∉ w.references) (h : Destroys w r w') (ho : o ∈ w'.history) :
    o ∈ w.history ∨ Arises w w' o := by
  cases h with
  | channels hc =>
    obtain rfl | ho := mem_prune ho
    · exact .inr .pruned
    · exact .inl ho
  | @abandoned id d k hd hk =>
    obtain rfl | ho := mem_post ho
    · refine .inr (.settling hd hk ?_)
      rw [(Posts.post (w.expire id) _ _).outcome?]
      exact if_pos rfl
    · obtain rfl | ho := List.mem_cons.1 ho
      · exact .inr (.abandoned hr hd hk)
      · exact .inl ho
  | _ => exact .inl ho

/-- Completing a deferred notes that it was completed, and nothing else. -/
theorem arises_determine {id status v} (h : w.determine id status v = some w')
    (ho : o ∈ w'.history) : o ∈ w.history ∨ Arises w w' o := by
  have hc : Arises w w' (.completed id status v) := .completed h
  obtain ⟨d, -, -, -, rfl⟩ := determine_cases h
  obtain rfl | ho := List.mem_cons.1 ho
  · exact .inr hc
  · exact .inl ho

/-- The wake of an errand is sent or dropped at its end. -/
theorem mem_launch {before after : List Errand} {cx wake}
    (h : o ∈ (w.launch before after cx wake).1.history) :
    o = .sent cx wake ∨ o = .dropped cx wake ∨ o ∈ w.history := by
  by_cases ho : (w.loopOf cx).isOpen
  · rw [launch_of_isOpen ho] at h
    obtain h | h := mem_post h
    · exact .inl h
    · exact .inr (.inr h)
  · rw [launch_of_closed ho] at h
    exact .inr (List.mem_cons.1 h)

/-- Converting a deferred notes the promise, its slot and its deferred. -/
theorem mem_promise (w : World) (cx : ContextId) (home : InstallationId) (slot : Nat) {id d}
    (hd : w.deferred? id = some d) :
    .promised ⟨cx, slot⟩ ⟨w.objects.next⟩ id ∈ (w.promise cx home slot id d).1.history := by
  obtain ⟨-, hp⟩ | ⟨-, hp⟩ := w.promise_posts cx home slot hd
  · exact hp.history.subset (List.mem_cons_self ..)
  · exact hp.history.subset (List.mem_cons_self ..)

/-- All that a promise leaves in the history. -/
theorem mem_promise_cases {cx home} {slot : Nat} {id d} (hd : w.deferred? id = some d)
    (ho : o ∈ (w.promise cx home slot id d).1.history) :
    o ∈ w.history ∨ o = .promised ⟨cx, slot⟩ ⟨w.objects.next⟩ id ∨
      d.status ≠ .pending ∧ o = .sent cx (.settle slot d.status d.value) := by
  have hpark (ho : o ∈ (w.park cx home slot id).history) :
      o ∈ w.history ∨ o = .promised ⟨cx, slot⟩ ⟨w.objects.next⟩ id ∨
        d.status ≠ .pending ∧ o = .sent cx (.settle slot d.status d.value) := by
    obtain ho | ho := List.mem_cons.1 ho
    · exact .inr (.inl ho)
    · exact .inl ho
  obtain ⟨-, -, h⟩ | ⟨-, old, -, h⟩ | ⟨hs, h⟩ :=
    await_cases (w := w.park cx home slot id) hd ⟨cx, slot⟩
  · exact hpark ((congrArg (o ∈ ·.history) h).mp ho)
  · exact hpark ((congrArg (o ∈ ·.history) h).mp ho)
  · obtain ho | ho := mem_post ((congrArg (o ∈ ·.history) h).mp ho)
    · exact .inr (.inr ⟨hs, ho⟩)
    · exact hpark ho

/-- Converting a deferred decides nothing about it. -/
theorem outcome?_promise (cx : ContextId) (home : InstallationId) (slot : Nat) {id d}
    (hd : w.deferred? id = some d) (d' : DeferredId) :
    outcome? d' (w.promise cx home slot id d).1.history = outcome? d' w.history := by
  obtain ⟨-, hp⟩ | ⟨-, hp⟩ := w.promise_posts cx home slot hd
  · exact hp.outcome? d'
  · exact hp.outcome? d'

/-- What happens when a deferred is converted: a promise is made, and perhaps a wake is sent. -/
theorem arises_promise {cx home i id d} (hb : w.bridge? cx = some (home, i))
    (hd : w.deferred? id = some d)
    (ho : o ∈ (w.promise cx home i.nextSlot id d).1.history) :
    o ∈ w.history ∨ Arises w (w.promise cx home i.nextSlot id d).1 o := by
  obtain ho | rfl | ⟨hs, rfl⟩ := mem_promise_cases hd ho
  · exact .inl ho
  · refine .inr (.promised hb hd rfl fun k p id' h => ?_)
    obtain h | h | ⟨-, h⟩ := mem_promise_cases hd h
    · exact .inl h
    · cases h
      exact .inr ⟨rfl, rfl, rfl⟩
    · cases h
  · exact .inr (.ready (w.mem_promise cx home i.nextSlot hd) hd hs (outcome?_promise cx home _ hd _))

/-- What happens when a subscriber is set: the callback is subscribed, and others are forgotten. -/
theorem arises_setSubscriber {cx home i} {id : ChannelsId} {place callback}
    (hb : w.bridge? cx = some (home, i))
    (ho : o ∈ (w.setSubscriber id place home i.nextSlot callback).1.history) :
    o ∈ w.history ∨ Arises w (w.setSubscriber id place home i.nextSlot callback).1 o := by
  unfold setSubscriber at ho
  split at ho
  · exact .inl ho
  · next c hc =>
    obtain rfl | ho := mem_prune ho
    · exact .inr .pruned
    · obtain rfl | ho := List.mem_cons.1 ho
      · exact .inr (.switched hc hb)
      · exact .inl ho
  · next c f hc =>
    have hf (t f') (h : .subscribed t f' ∈ (((w.keepCallback home i.nextSlot f).switch id place home
        c.installation (some ⟨home, i.nextSlot⟩)).prune home).1.history) :
        .subscribed t f' ∈ w.history ∨ f' = f := by
      obtain h | h := mem_prune h
      · cases h
      · obtain h | h := List.mem_cons.1 h
        · cases h
        · obtain h | h := List.mem_cons.1 h
          · cases h
            exact .inr rfl
          · exact .inl h
    obtain rfl | ho := mem_prune ho
    · exact .inr .pruned
    · obtain rfl | ho := List.mem_cons.1 ho
      · exact .inr (.switched hc hb)
      · obtain rfl | ho := List.mem_cons.1 ho
        · refine .inr (.subscribed hb hc rfl fun t f' h => hf t f' ?_)
          unfold setSubscriber at h
          rwa [hc] at h
        · exact .inl ho

/-- What happens when a delivery begins: its wake is taken, and a settlement leaves its slot. -/
theorem arises_take {cx wake rest}
    (hq : (w.loopOf cx).queue = wake :: rest)
    (ho : o ∈ ((w.pop cx wake rest).begin cx wake).history) :
    o ∈ w.history ∨ Arises w ((w.pop cx wake rest).begin cx wake) o := by
  have hb := begins (w.pop cx wake rest) cx wake
  generalize hw : (w.pop cx wake rest).begin cx wake = w' at ho hb ⊢
  have hbridge : (w.pop cx wake rest).bridge? cx = w.bridge? cx :=
    bridge?_congr (data?_pop ..) rfl
  have hpop (ho : o ∈ (w.pop cx wake rest).history) : o ∈ w.history ∨ Arises w w' o := by
    obtain rfl | ho := List.mem_cons.1 ho
    · exact .inr (.taken hq hw.symm)
    · exact .inl ho
  cases hb with
  | other h => exact hpop ho
  | unbridged h => exact hpop ho
  | missed h hp =>
    obtain rfl | ho := List.mem_cons.1 ho
    · exact .inr (.missed hq (hbridge ▸ h) hp)
    · exact hpop ho
  | unparked h hp =>
    obtain rfl | ho := List.mem_cons.1 ho
    · exact .inr (.unparked hq (hbridge ▸ h) hp hw.symm)
    · exact hpop ho

end World

/-- **What a move adds to the history** is one of the things that can happen. -/
theorem Move.arises {w w' : World} (hm : Move w w') {o} (ho : o ∈ w'.history) :
    o ∈ w.history ∨ Arises w w' o := by
  cases hm with
  | quiet h => exact .inl (h.history ▸ ho)
  | destroy r hr => exact World.arises_destroy hr (w.destroys r) ho
  | closeContext cx =>
    obtain ho | ho := List.mem_append.1 ho
    · obtain ⟨wake, -, rfl⟩ := List.mem_map.1 ho
      exact .inr .dropped
    · obtain rfl | ho := List.mem_cons.1 ho
      · exact .inr .unbound
      · exact .inl ho
  | install registry hc =>
    obtain rfl | ho := List.mem_cons.1 ho
    · exact .inr (.installed hc rfl)
    · exact .inl ho
  | unbind cx text =>
    obtain rfl | ho := List.mem_cons.1 ho
    · exact .inr .unbound
    · exact .inl ho
  | openScope h =>
    obtain rfl | ho := List.mem_cons.1 ho
    · exact .inr .opened
    · exact .inl ho
  | closeScope h =>
    obtain rfl | ho := List.mem_cons.1 ho
    · exact .inr .closed
    · exact .inl ho
  | determine h => exact World.arises_determine h ho
  | promise hb hd => exact World.arises_promise hb hd ho
  | setSubscriber id place callback hb => exact World.arises_setSubscriber hb ho
  | aim args h =>
    obtain rfl | ho := List.mem_cons.1 ho
    · exact .inr (.aimed h rfl)
    · exact .inl ho
  | launch h =>
    obtain rfl | rfl | ho := World.mem_launch ho
    · exact .inr (.launched h rfl)
    · exact .inr .dropped
    · exact .inl ho
  | take h =>
    obtain ⟨rest, hq, rfl⟩ := World.take_cases h
    exact World.arises_take hq ho
  | hear hu hf =>
    obtain rfl | ho := List.mem_cons.1 ho
    · exact .inr (.heard hu hf rfl)
    · exact .inl ho
  | finish hd hu hs =>
    obtain rfl | ho := List.mem_cons.1 ho
    · exact .inr (.ended hd hu hs rfl)
    · exact .inl ho
  | newTicket name h =>
    unfold World.newTicket at ho
    split at ho
    · exact .inl ho
    · exact .inl ho
  | sendTicket h label body =>
    obtain rfl | ho := World.mem_post ho
    · exact .inr .script
    · exact .inl ho
  | _ => exact .inl ho

/-! ## Outcomes -/

/-- A deferred that was pending gets its outcome. -/
inductive Decides (w w' : World) (id : DeferredId) : DeferredStatus → NativeValue → Prop where
  /-- A producer completes it. -/
  | completed {status v} (h : w.determine id status v = some w') : Decides w w' id status v
  /-- Its last handle goes while something waits for it. -/
  | dropped {d k} (hr : .deferred id ∉ w.references) (hd : w.deferred? id = some d)
      (hk : d.abandoned = some k) : Decides w w' id .rejected Deferred.droppedReason

namespace World

variable {w w' : World}

theorem outcome?_prune (w : World) (id : InstallationId) (d : DeferredId) :
    outcome? d (w.prune id).1.history = outcome? d w.history := by
  rw [prune]
  split
  · rfl
  · rfl

theorem outcome?_setSubscriber (w : World) (id : ChannelsId) (place : Nat) (home : InstallationId)
    (slot : Nat) (callback : Option ForeignValue) (d : DeferredId) :
    outcome? d (w.setSubscriber id place home slot callback).1.history = outcome? d w.history := by
  unfold setSubscriber
  split
  · rfl
  · exact outcome?_prune (w.switch ..) home d
  · next f _ => exact outcome?_prune ((w.keepCallback home slot f).switch ..) home d

/-- The beginning of a delivery decides nothing about a deferred. -/
theorem Begins.outcome? {cx wake} (h : Begins w cx wake w') (d : DeferredId) :
    History.outcome? d w'.history = History.outcome? d w.history := by
  cases h with
  | _ => rfl

end World

/-- **Outcomes** are decided by the first completion, or by the end of a deferred that something waits
for. -/
theorem Move.outcome {w w' : World} (hm : Move w w') :
    (∀ d, outcome? d w'.history = outcome? d w.history) ∨
      ∃ id status v, Decides w w' id status v ∧
        ∀ d, outcome? d w'.history = if id = d then some (status, v) else outcome? d w.history := by
  cases hm with
  | quiet h => exact .inl fun d => by rw [h.history]
  | destroy r hr =>
    have hd := w.destroys r
    generalize (w.destroy r).1 = w' at hd ⊢
    cases hd with
    | channels hc => exact .inl fun d => World.outcome?_prune (w.disconnect _ _) _ d
    | abandoned hd ha =>
      exact .inr ⟨_, _, _, .dropped hr hd ha, (World.Posts.post (w.expire _) _ _).outcome?⟩
    | _ => exact .inl fun d => rfl
  | determine h =>
    obtain ⟨d, -, -, -, hp⟩ := World.determine_posts h
    exact .inr ⟨_, _, _, .completed h, hp.outcome?⟩
  | promise hb hd => exact .inl (World.outcome?_promise _ _ _ hd)
  | setSubscriber id place callback hb => exact .inl (w.outcome?_setSubscriber _ _ _ _ _)
  | aim args h => exact .inl (World.Posts.aim w ..).outcome?
  | arm h => exact .inl (World.Posts.arm w ..).outcome?
  | launch h => exact .inl (World.Posts.launch w ..).outcome?
  | take h =>
    obtain ⟨rest, -, rfl⟩ := World.take_cases h
    exact .inl (World.begins (w.pop _ _ rest) _ _).outcome?
  | closeContext cx => exact .inl fun d => skip_dropped (f := outcome? d) (fun _ _ => rfl) ..
  | newTicket name h => exact .inl (World.Posts.newTicket w ..).outcome?
  | sendTicket h label body => exact .inl (World.Posts.sendTicket w ..).outcome?
  | _ => exact .inl fun d => rfl

/-! ## Contexts, again -/

namespace World

variable {w w' : World} {cx c : ContextId}

/-- Nothing changes about what a context carries. -/
def Carries (w w' : World) (cx : ContextId) : Prop :=
  w'.data? cx = w.data? cx ∧ bindings cx w'.history = bindings cx w.history

/-- What a context carries through two moves. -/
theorem Carries.trans {w'' : World} (h : Carries w w' cx) (h' : Carries w' w'' cx) :
    Carries w w'' cx :=
  ⟨h'.1.trans h.1, h'.2.trans h.2⟩

/-- Registering and queueing leave all contexts as they are. -/
theorem Posts.carries (h : Posts w w') : Carries w w' cx := by
  cases h with
  | _ => exact ⟨rfl, rfl⟩

theorem Begins.carries {c wake} (h : Begins w c wake w') : Carries w w' cx := by
  cases h with
  | _ => exact ⟨rfl, rfl⟩

theorem prune_carries (w : World) (id : InstallationId) : Carries w (w.prune id).1 cx := by
  rw [prune]
  split
  · exact ⟨rfl, rfl⟩
  · exact ⟨rfl, rfl⟩

/-- Destroying something leaves what contexts carry as it is: nothing that a context carries is unowned. -/
theorem Destroys.carries {r} (h : Destroys w r w') : Carries w w' cx := by
  cases h with
  | channels hc => exact prune_carries (w.disconnect _ _) _
  | abandoned hd ha => exact (Posts.post (w.expire _) _ _).carries
  | _ => exact ⟨rfl, rfl⟩

theorem setSubscriber_carries (w : World) (id : ChannelsId) (place : Nat) (home : InstallationId)
    (slot : Nat) (callback : Option ForeignValue) :
    Carries w (w.setSubscriber id place home slot callback).1 cx := by
  unfold setSubscriber
  split
  · exact ⟨rfl, rfl⟩
  · exact prune_carries (w.switch ..) home
  · next f _ => exact prune_carries ((w.keepCallback home slot f).switch ..) home

theorem data?_openContext (w : World) (global : ObjectId) (cx : ContextId) :
    (w.openContext global).data? cx = w.data? cx := by
  rw [data?, context?, openContext, Store.get?_insert]
  split
  · next h =>
    rw [data?, context?, h, Store.get?_next]
    rfl
  · rfl

/-- The end of a context is not seen in the others. -/
theorem data?_closeContext_of_ne (h : c ≠ cx) : (w.closeContext cx).1.data? c = w.data? c := by
  rw [data?, context?_closeContext, if_neg h, data?]

/-- A change to one context is not seen in the others. -/
theorem data?_modify_of_ne {f : Context → Context}
    (h : w'.contexts = w.contexts.modify cx.index f) (hc : c ≠ cx) : w'.data? c = w.data? c := by
  rw [data?, data?, context?, h, Store.get?_modify, if_neg fun h => hc (ContextId.index_inj.1 h)]
  rfl

theorem install_contexts (w : World) (cx : ContextId) (registry : Registry) :
    (w.install cx registry).contexts = w.contexts.modify cx.index
      ({ · with data := some (.bridge ⟨w.installations.next⟩) }) := rfl

theorem unbind_contexts (w : World) (cx : ContextId) (text : Option String) :
    (w.unbind cx text).contexts = w.contexts.modify cx.index ({ · with data := text.map .text }) :=
  rfl

/-- A context from which the bridge was taken has none. -/
theorem data?_unbind_ne (w : World) (cx : ContextId) (text : Option String) (id : InstallationId) :
    (w.unbind cx text).data? cx ≠ some (.bridge id) := by
  rw [data?, context?, w.unbind_contexts, Store.get?_modify, if_pos rfl]
  cases w.contexts.get? cx.index with
  | none => simp
  | some _ =>
    cases text with
    | none => simp
    | some _ => simp

/-- Installing a bridge is one binding of its context. -/
theorem bindings_install (w : World) (cx : ContextId) (registry : Registry) (c : ContextId) :
    bindings c (w.install cx registry).history =
      bindings c w.history + if cx = c then 1 else 0 := rfl

/-- Taking the bridge from a context is one binding more. -/
theorem bindings_unbind (w : World) (cx : ContextId) (text : Option String) (c : ContextId) :
    bindings c (w.unbind cx text).history = bindings c w.history + if cx = c then 1 else 0 := rfl

/-- The end of a context counts as a binding of it. -/
theorem bindings_closeContext (w : World) (cx c : ContextId) :
    bindings c (w.closeContext cx).1.history =
      bindings c w.history + if cx = c then 1 else 0 :=
  skip_dropped (f := bindings c) (fun _ _ => rfl) ..

end World

/-- Quiet moves leave what contexts carry as it is. -/
theorem Quiet.data? {w w' : World} (h : Quiet w w') (cx : ContextId) : w'.data? cx = w.data? cx := by
  have := congrArg (Option.bind · Prod.fst) (h.contexts cx)
  rwa [Option.bind_map, Option.bind_map] at this

/-- **What a context carries** changes when something is installed on it, and when it is given something
else to carry or closes. -/
theorem Move.data {w w' : World} (hm : Move w w') (cx : ContextId) :
    World.Carries w w' cx ∨
      (∃ registry, (w.context? cx).isSome ∧ w' = w.install cx registry) ∨
      (bindings cx w'.history = bindings cx w.history + 1 ∧
        ∀ id, w'.data? cx ≠ some (.bridge id)) := by
  cases hm with
  | quiet h => exact .inl ⟨h.data? cx, by rw [h.history]⟩
  | destroy r _ => exact .inl (w.destroys r).carries
  | openContext global => exact .inl ⟨w.data?_openContext global cx, rfl⟩
  | closeContext c =>
    by_cases hc : c = cx
    · subst hc
      refine .inr (.inr ⟨by rw [w.bindings_closeContext, if_pos rfl], fun id => ?_⟩)
      rw [World.data?, World.context?_closeContext, if_pos rfl]
      simp
    · refine .inl ⟨World.data?_closeContext_of_ne (Ne.symm hc), ?_⟩
      rw [w.bindings_closeContext, if_neg hc, Nat.add_zero]
  | @install c registry hc =>
    by_cases h : c = cx
    · subst h
      exact .inr (.inl ⟨registry, hc, rfl⟩)
    · refine .inl ⟨World.data?_modify_of_ne (w.install_contexts c registry) (Ne.symm h), ?_⟩
      rw [w.bindings_install, if_neg h, Nat.add_zero]
  | unbind c text =>
    by_cases h : c = cx
    · subst h
      exact .inr (.inr ⟨by rw [w.bindings_unbind, if_pos rfl], w.data?_unbind_ne c text⟩)
    · refine .inl ⟨World.data?_modify_of_ne (w.unbind_contexts c text) (Ne.symm h), ?_⟩
      rw [w.bindings_unbind, if_neg h, Nat.add_zero]
  | determine h =>
    obtain ⟨d, -, -, -, hp⟩ := World.determine_posts h
    exact .inl hp.carries
  | promise hb hd =>
    obtain ⟨-, hp⟩ | ⟨-, hp⟩ := w.promise_posts _ _ _ hd
    · exact .inl hp.carries
    · exact .inl hp.carries
  | setSubscriber id place callback hb => exact .inl (w.setSubscriber_carries ..)
  | aim args h => exact .inl (World.Posts.aim w ..).carries
  | arm h => exact .inl (World.Posts.arm w ..).carries
  | launch h => exact .inl (World.Posts.launch w ..).carries
  | take h =>
    obtain ⟨rest, -, rfl⟩ := World.take_cases h
    exact .inl (World.Carries.trans ⟨w.data?_pop .., rfl⟩ (World.begins ..).carries)
  | finish hd hu hs => exact .inl ⟨w.data?_finish .., rfl⟩
  | openScope h => exact .inl ⟨w.data?_openScope .., rfl⟩
  | closeScope h => exact .inl ⟨w.data?_closeScope .., rfl⟩
  | newTicket name h => exact .inl (World.Posts.newTicket w ..).carries
  | sendTicket h label body => exact .inl (World.Posts.sendTicket w ..).carries
  | _ => exact .inl ⟨rfl, rfl⟩

/-! ## Deliveries -/

/-- What a move can make of the deliveries that are under way. -/
inductive Delivers (w w' : World) : Prop where
  | same (h : w'.delivering = w.delivering)
  | began {cx wake rest} (hq : (w.loopOf cx).queue = wake :: rest)
      (h : w'.delivering = (cx, wake) :: w.delivering)
  | ended {cx wake rest broke} (hd : w.delivering = (cx, wake) :: rest)
      (h : w'.delivering = rest) (ho : .ended cx wake broke ∈ w'.history)

namespace World

variable {w w' : World}

/-- Registering and queueing begin and end no delivery. -/
theorem Posts.delivering (h : Posts w w') : w'.delivering = w.delivering := by
  cases h with
  | _ => rfl

end World

/-- **What a move does to the deliveries**: it begins one, ends the innermost one or leaves them as they
are. -/
theorem Move.delivers {w w' : World} (hm : Move w w') : Delivers w w' := by
  cases hm with
  | quiet h => exact .same h.delivering
  | destroy r hr =>
    have hd := w.destroys r
    generalize (w.destroy r).1 = w' at hd ⊢
    cases hd with
    | channels hc => exact .same (Aside.prune (w.disconnect _ _) _).delivering
    | abandoned hd ha => exact .same (World.Posts.post (w.expire _) _ _).delivering
    | _ => exact .same rfl
  | determine h =>
    obtain ⟨d, -, -, -, hp⟩ := World.determine_posts h
    exact .same hp.delivering
  | promise hb hd =>
    obtain ⟨-, hp⟩ | ⟨-, hp⟩ := w.promise_posts _ _ _ hd
    · exact .same hp.delivering
    · exact .same hp.delivering
  | setSubscriber id place callback hb => exact .same (Aside.setSubscriber w ..).delivering
  | aim args h => exact .same (World.Posts.aim w ..).delivering
  | arm h => exact .same (World.Posts.arm w ..).delivering
  | launch h => exact .same (World.Posts.launch w ..).delivering
  | take h =>
    obtain ⟨rest, hq, rfl⟩ := World.take_cases h
    exact .began hq (Aside.begins (World.begins (w.pop _ _ rest) _ _)).delivering
  | finish hd hu hs =>
    refine .ended hd ?_ (List.mem_cons_self ..)
    exact (congrArg List.tail hd :)
  | newTicket name h => exact .same (World.Posts.newTicket w ..).delivering
  | sendTicket h label body => exact .same (World.Posts.sendTicket w ..).delivering
  | _ => exact .same rfl

/-! ## Errands -/

namespace World

variable {w w' : World}

/-- Queueing a wake leaves the errands of all threads as they are. -/
theorem post_errands (w : World) (cx : ContextId) (wake : Wake) :
    (w.post cx wake).1.errands = w.errands := by
  rw [post]
  split
  · rfl
  · rfl

/-- Destroying something leaves the errands as they are, since these own what they need. -/
theorem Destroys.errands {r} (h : Destroys w r w') : w'.errands = w.errands := by
  cases h with
  | channels hc => exact ((Aside.disconnect w ..).trans (.prune _ _)).errands
  | abandoned hd ha => exact post_errands ..
  | _ => rfl

theorem promise_errands (w : World) (cx : ContextId) (home : InstallationId) (slot : Nat) {id d}
    (hd : w.deferred? id = some d) : (w.promise cx home slot id d).1.errands = w.errands := by
  obtain ⟨-, -, h⟩ | ⟨-, old, -, h⟩ | ⟨-, h⟩ :=
    await_cases (w := w.park cx home slot id) hd ⟨cx, slot⟩
  · rw [promise, h]
    rfl
  · rw [promise, h]
    rfl
  · rw [promise, h, send, post_errands]
    rfl

theorem newTicket_errands (w : World) (name : String) (cx : ContextId) :
    (w.newTicket name cx).errands = w.errands := by
  unfold newTicket
  split
  · rfl
  · rfl

/-- An errand that is done is gone. -/
theorem launch_errands (w : World) (before after : List Errand) (cx : ContextId) (wake : Wake) :
    (w.launch before after cx wake).1.errands = before ++ after := by
  by_cases ho : (w.loopOf cx).isOpen
  · rw [launch_of_isOpen ho, post_errands]
  · rw [launch_of_closed ho]
    rfl

end World

/-- What a move can make of errands. -/
inductive Undertakes (w w' : World) : Prop where
  | same (h : w'.errands = w.errands)
  | determined {id d status v} (h : w.determine id status v = some w')
      (hd : w.deferred? id = some d)
      (he : w'.errands = World.errandsOf status v d.continuation ++ w.errands)
  | aimed {id event cx token args} (h : w.subscriber? id event = some (cx, token))
      (hw : w' = w.aim cx token args)
  | armed {before after cx token args} (h : w.errands = before ++ .aimed cx token args :: after)
      (hw : w' = w.arm before after cx (.event token args))
  | launched {before after cx wake} (h : w.errands = before ++ .armed cx wake :: after)
      (hw : w' = (w.launch before after cx wake).1)

/-- **Errands** come from completions and firings; they register, and go when they queue their wake. -/
theorem Move.undertakes {w w' : World} (hm : Move w w') : Undertakes w w' := by
  cases hm with
  | quiet h => exact .same h.errands
  | destroy r hr => exact .same (w.destroys r).errands
  | determine h =>
    obtain ⟨d, hd, -, -, hw⟩ := World.determine_cases h
    exact .determined h hd (hw ▸ rfl)
  | promise hb hd => exact .same (w.promise_errands _ _ _ hd)
  | setSubscriber id place callback hb => exact .same (Aside.setSubscriber w ..).errands
  | aim args h => exact .aimed h rfl
  | arm h => exact .armed h rfl
  | launch h => exact .launched h rfl
  | take h =>
    obtain ⟨rest, -, rfl⟩ := World.take_cases h
    exact .same (Aside.begins (World.begins (w.pop _ _ rest) _ _)).errands
  | newTicket name h => exact .same (w.newTicket_errands ..)
  | sendTicket h label body => exact .same (World.post_errands ..)
  | _ => exact .same rfl

/-- A new errand tells of its move. -/
inductive Undertaken (w w' : World) : Errand → Prop where
  | determined {id d k status v} (h : w.determine id status v = some w')
      (hd : w.deferred? id = some d) (hk : d.continuation = some k) :
      Undertaken w w' (.armed k.context (.settle k.slot status v))
  | aimed {id event cx token args} (h : w.subscriber? id event = some (cx, token))
      (hw : w' = w.aim cx token args) : Undertaken w w' (.aimed cx token args)
  | armed {before after cx token args} (h : w.errands = before ++ .aimed cx token args :: after)
      (hw : w' = w.arm before after cx (.event token args)) :
      Undertaken w w' (.armed cx (.event token args))

/-- **Where errands come from**: from a firing, a completion or the errand before. -/
theorem Move.errand {w w' : World} (hm : Move w w') {e : Errand} (he : e ∈ w'.errands) :
    e ∈ w.errands ∨ Undertaken w w' e := by
  cases hm.undertakes with
  | same h => exact .inl (h ▸ he)
  | @determined id d status v h hd hw =>
    rw [hw] at he
    obtain he | he := List.mem_append.1 he
    · obtain ⟨k, hk, rfl⟩ := List.mem_map.1 he
      exact .inr (.determined h hd (Option.mem_toList.1 hk))
    · exact .inl he
  | aimed h hw =>
    subst hw
    obtain rfl | he := List.mem_cons.1 he
    · exact .inr (.aimed h rfl)
    · exact .inl he
  | armed h hw =>
    rw [h]
    subst hw
    obtain he | he := List.mem_append.1 he
    · exact .inl (List.mem_append_left _ he)
    · obtain rfl | he := List.mem_cons.1 he
      · exact .inr (.armed h rfl)
      · exact .inl (List.mem_append_right _ (List.mem_cons_of_mem _ he))
  | launched h hw =>
    rw [h]
    rw [hw, World.launch_errands] at he
    obtain he | he := List.mem_append.1 he
    · exact .inl (List.mem_append_left _ he)
    · exact .inl (List.mem_append_right _ (List.mem_cons_of_mem _ he))

/-! ## Installations -/

/-- Installations are told apart by their number. -/
theorem InstallationId.index_inj {id id' : InstallationId} : id.index = id'.index ↔ id = id' := by
  cases id
  cases id'
  rw [mk.injEq]

/-- What a move can make of an installation that stays. -/
inductive Alters (w w' : World) (id : InstallationId) (i : Installation) : Installation → Prop where
  | same : Alters w w' id i i
  | class {cx o} (e : ClassKey × ObjectId) (hb : w.bridge? cx = some (id, i))
      (ho : w'.object? e.2 = some o) (hc : o.context = cx) (hf : o.isFunction) :
      Alters w w' id i { i with classes := i.classes ++ [e] }
  /-- Callbacks that no subscription wants are forgotten. -/
  | forgot : Alters w w' id i
      { i with subscriptions := i.subscriptions.filter fun e => w'.isSubscribed ⟨id, e.1⟩ }
  | subscribed (f : ForeignValue) (h : .subscribed ⟨id, i.nextSlot⟩ f ∈ w'.history) :
      Alters w w' id i { i with
        subscriptions := (i.subscriptions ++ [(i.nextSlot, f)]).filter fun e =>
          w'.isSubscribed ⟨id, e.1⟩
        nextSlot := i.nextSlot + 1 }
  | parked {cx d} (hb : w.bridge? cx = some (id, i))
      (h : .promised ⟨cx, i.nextSlot⟩ ⟨w.objects.next⟩ d ∈ w'.history) :
      Alters w w' id i { i with
        resolvers := i.resolvers ++ [(i.nextSlot, ⟨w.objects.next⟩)]
        nextSlot := i.nextSlot + 1 }
  | unparked {cx slot p} (hb : w.bridge? cx = some (id, i)) (hp : w.parked? id slot = some p)
      (h : .unparked ⟨cx, slot⟩ p ∈ w'.history) :
      Alters w w' id i { i with resolvers := i.resolvers.filter (·.1 ≠ slot) }

namespace World

variable {w w' : World} {id home : InstallationId} {i i' : Installation}

/-- Installations are looked up in their store alone. -/
theorem installation?_congr (h : w'.installations = w.installations) (id : InstallationId) :
    w'.installation? id = w.installation? id := by
  rw [installation?, installation?, h]

/-- A change to one installation, as the others see it. -/
theorem installation?_modify {f : Installation → Installation}
    (h : w'.installations = w.installations.modify home.index f)
    (hi : w.installation? id = some i) :
    w'.installation? id = some (if id = home then f i else i) := by
  rw [installation?] at hi
  rw [installation?, h, Store.get?_modify, hi]
  by_cases hh : id = home
  · rw [if_pos (congrArg _ hh), if_pos hh]
    rfl
  · rw [if_neg fun h => hh (InstallationId.index_inj.1 h), if_neg hh]

/-- One installation is changed. -/
theorem alters_modify {f : Installation → Installation}
    (h : w'.installations = w.installations.modify home.index f)
    (hi : w.installation? id = some i) (ha : id = home → Alters w w' id i (f i)) :
    ∃ i', w'.installation? id = some i' ∧ Alters w w' id i i' := by
  refine ⟨_, installation?_modify h hi, ?_⟩
  split
  · exact ha ‹_›
  · exact .same

/-- What does not touch the store alters no installation. -/
theorem alters_congr (h : w'.installations = w.installations) (hi : w.installation? id = some i) :
    ∃ i', w'.installation? id = some i' ∧ Alters w w' id i i' :=
  ⟨i, (installation?_congr h id).trans hi, .same⟩

/-- Registering and queueing leave all installations as they are. -/
theorem Posts.installations (h : Posts w w') : w'.installations = w.installations := by
  cases h with
  | _ => rfl

/-- Forgetting callbacks leaves the tokens alone. -/
theorem isSubscribed_prune (w : World) (id : InstallationId) (t : Token) :
    (w.prune id).1.isSubscribed t = w.isSubscribed t := by
  rw [prune]
  split
  · rfl
  · rfl

/-- Forgetting drops the callbacks that nobody needs, of one installation. -/
theorem forget_installations (w : World) (id : InstallationId) :
    (w.forget id).installations = w.installations.modify id.index fun i =>
      { i with subscriptions := i.subscriptions.filter fun e => w.isSubscribed ⟨id, e.1⟩ } := rfl

/-- What an installation retains once its callbacks were forgotten. -/
theorem prune_installation? (w : World) (home : InstallationId) (hi : w.installation? id = some i) :
    (w.prune home).1.installation? id = some (if id = home then
      { i with subscriptions := i.subscriptions.filter fun e => w.isSubscribed ⟨home, e.1⟩ }
      else i) := by
  rw [prune]
  split
  · next h =>
    have hn : id ≠ home := by
      rintro rfl
      rw [h] at hi
      cases hi
    rw [if_neg hn]
    exact hi
  · exact installation?_modify (w.forget_installations home) hi

/-- Forgetting callbacks is an alteration that adds nothing. -/
theorem alters_prune {w₀ : World} (hi : w.installation? id = some i) :
    ∃ i', (w.prune home).1.installation? id = some i' ∧ Alters w₀ (w.prune home).1 id i i' := by
  refine ⟨_, prune_installation? w home hi, ?_⟩
  split
  · next h =>
    subst h
    simp only [← isSubscribed_prune w id]
    exact .forgot
  · exact .same

/-- A new callback comes last in its installation, under the next number. -/
theorem keepCallback_installations (w : World) (home : InstallationId) (slot : Nat)
    (f : ForeignValue) : (w.keepCallback home slot f).installations =
      w.installations.modify home.index fun i =>
        { i with subscriptions := i.subscriptions ++ [(slot, f)], nextSlot := slot + 1 } := rfl

/-- A settlement that is taken leaves its slot empty. -/
theorem vacate_installations (w : World) (cx : ContextId) (home : InstallationId) (slot : Nat)
    (p : ObjectId) : (w.vacate cx home slot p).installations =
      w.installations.modify home.index fun i =>
        { i with resolvers := i.resolvers.filter (·.1 ≠ slot) } := rfl

/-- A new promise is parked under the next number. -/
theorem park_installations (w : World) (cx : ContextId) (home : InstallationId) (slot : Nat)
    (d : DeferredId) : (w.park cx home slot d).installations =
      w.installations.modify home.index fun i =>
        { i with resolvers := i.resolvers ++ [(slot, ⟨w.objects.next⟩)], nextSlot := slot + 1 } :=
  rfl

/-- A new subscription takes the next slot. -/
theorem installation?_setSubscriber {cx i₀ c ch} (hb : w.bridge? cx = some (home, i₀))
    (hc : w.channels? c = some ch) (place : Nat) (f : ForeignValue) :
    (w.setSubscriber c place home i₀.nextSlot (some f)).1.installation? home = some { i₀ with
      subscriptions := (i₀.subscriptions ++ [(i₀.nextSlot, f)]).filter fun e =>
        (w.setSubscriber c place home i₀.nextSlot (some f)).1.isSubscribed ⟨home, e.1⟩
      nextSlot := i₀.nextSlot + 1 } := by
  have hk := installation?_modify (w.keepCallback_installations home i₀.nextSlot f)
    (bridge?_eq_some.1 hb).2
  rw [if_pos rfl] at hk
  have hw : w.setSubscriber c place home i₀.nextSlot (some f) =
      ((w.keepCallback home i₀.nextSlot f).switch c place home ch.installation
        (some ⟨home, i₀.nextSlot⟩)).prune home := by
    unfold setSubscriber
    rw [hc]
  have hp := prune_installation? ((w.keepCallback home i₀.nextSlot f).switch c place home
    ch.installation (some ⟨home, i₀.nextSlot⟩)) home hk
  rw [if_pos rfl] at hp
  rw [hw, hp]
  simp only [isSubscribed_prune]

/-- Setting a subscriber alters an installation by one callback, or not at all. -/
theorem alters_setSubscriber {cx i₀} (hb : w.bridge? cx = some (home, i₀)) (c : ChannelsId)
    (place : Nat) (callback : Option ForeignValue) (hi : w.installation? id = some i) :
    ∃ i', (w.setSubscriber c place home i₀.nextSlot callback).1.installation? id = some i' ∧
      Alters w (w.setSubscriber c place home i₀.nextSlot callback).1 id i i' := by
  unfold setSubscriber
  split
  · exact ⟨i, hi, .same⟩
  · next ch _ => exact alters_prune (w := w.switch c place home ch.installation none) hi
  · next ch f _ =>
    have hk := installation?_modify (w.keepCallback_installations home i₀.nextSlot f) hi
    have hks : ((w.keepCallback home i₀.nextSlot f).switch c place home ch.installation
      (some ⟨home, i₀.nextSlot⟩)).installation? id = _ := hk
    generalize hs : (w.keepCallback home i₀.nextSlot f).switch c place home ch.installation
      (some ⟨home, i₀.nextSlot⟩) = ws at hks ⊢
    refine ⟨_, prune_installation? ws home hks, ?_⟩
    split
    · next h =>
      subst h
      obtain rfl : i = i₀ := Option.some.inj (hi.symm.trans (bridge?_eq_some.1 hb).2)
      simp only [← isSubscribed_prune ws id]
      refine .subscribed f ((prune_history ws id).subset ?_)
      rw [← hs]
      exact List.mem_cons_of_mem _ (List.mem_cons_self ..)
    · exact .same

/-- A converted deferred is parked, whether or not its wake is sent at once. -/
theorem promise_installations (w : World) (cx : ContextId) (home : InstallationId) (slot : Nat)
    {d cell} (hd : w.deferred? d = some cell) :
    (w.promise cx home slot d cell).1.installations = (w.park cx home slot d).installations := by
  obtain ⟨-, hp⟩ | ⟨-, hp⟩ := w.promise_posts cx home slot hd
  · exact hp.installations
  · exact hp.installations

/-- A new promise is parked in the next slot. -/
theorem installation?_promise {cx i₀ d cell} (hb : w.bridge? cx = some (home, i₀))
    (hd : w.deferred? d = some cell) :
    (w.promise cx home i₀.nextSlot d cell).1.installation? home = some { i₀ with
      resolvers := i₀.resolvers ++ [(i₀.nextSlot, ⟨w.objects.next⟩)]
      nextSlot := i₀.nextSlot + 1 } := by
  have hp := installation?_modify (w.park_installations cx home i₀.nextSlot d)
    (bridge?_eq_some.1 hb).2
  rw [if_pos rfl] at hp
  rw [installation?_congr (w.promise_installations cx home i₀.nextSlot hd), hp]

/-- A delivery takes the promise out of its slot. -/
theorem installation?_begin {cx slot status v rest p} (hb : w.bridge? cx = some (home, i))
    (hp : w.parked? home slot = some p) :
    ((w.pop cx (.settle slot status v) rest).begin cx (.settle slot status v)).installation? home =
      some { i with resolvers := i.resolvers.filter (·.1 ≠ slot) } := by
  have hbridge : (w.pop cx (.settle slot status v) rest).bridge? cx = w.bridge? cx :=
    bridge?_congr (data?_pop ..) rfl
  have hbegin := begins (w.pop cx (.settle slot status v) rest) cx (.settle slot status v)
  generalize (w.pop cx (.settle slot status v) rest).begin cx (.settle slot status v) = w' at hbegin ⊢
  cases hbegin with
  | other h => exact absurd rfl (h slot status v)
  | unbridged h => cases h.symm.trans (hbridge.trans hb)
  | missed h hp' =>
    cases h.symm.trans (hbridge.trans hb)
    cases hp'.symm.trans hp
  | unparked h hp' =>
    cases h.symm.trans (hbridge.trans hb)
    have hi := installation?_modify (vacate_installations _ cx home slot p) (bridge?_eq_some.1 h).2
    rw [if_pos rfl] at hi
    exact hi

/-- Converting a deferred alters an installation by one promise. -/
theorem alters_promise {cx i₀ d cell} (hb : w.bridge? cx = some (home, i₀))
    (hd : w.deferred? d = some cell) (hi : w.installation? id = some i) :
    ∃ i', (w.promise cx home i₀.nextSlot d cell).1.installation? id = some i' ∧
      Alters w (w.promise cx home i₀.nextSlot d cell).1 id i i' := by
  have hp := installation?_modify (w.park_installations cx home i₀.nextSlot d) hi
  have hw := w.promise_installations cx home i₀.nextSlot hd
  refine ⟨_, (installation?_congr hw id).trans hp, ?_⟩
  split
  · next h =>
    subst h
    obtain rfl : i = i₀ := Option.some.inj (hi.symm.trans (bridge?_eq_some.1 hb).2)
    exact .parked hb (w.mem_promise cx id i.nextSlot hd)
  · exact .same

/-- The beginning of a delivery alters an installation by at most one emptied slot. -/
theorem alters_begin {cx wake rest} (hi : w.installation? id = some i) :
    ∃ i', ((w.pop cx wake rest).begin cx wake).installation? id = some i' ∧
      Alters w ((w.pop cx wake rest).begin cx wake) id i i' := by
  have hb := begins (w.pop cx wake rest) cx wake
  generalize (w.pop cx wake rest).begin cx wake = w' at hb ⊢
  have hbridge : (w.pop cx wake rest).bridge? cx = w.bridge? cx :=
    bridge?_congr (data?_pop ..) rfl
  cases hb with
  | @unparked slot status v home i₀ promise h hp =>
    rw [hbridge] at h
    refine alters_modify (vacate_installations _ cx home slot promise) hi ?_
    rintro rfl
    obtain rfl : i = i₀ := Option.some.inj (hi.symm.trans (bridge?_eq_some.1 h).2)
    exact .unparked h hp (List.mem_cons_self ..)
  | _ => exact ⟨i, hi, .same⟩

/-- Nothing is installed. -/
structure InstallsNothing (w w' : World) : Prop where
  next_eq : w'.installations.next = w.installations.next
  isSome : ∀ id, (w'.installation? id).isSome → (w.installation? id).isSome

namespace InstallsNothing

/-- Who leaves the store alone installs nothing. -/
theorem of_eq (h : w'.installations = w.installations) : InstallsNothing w w' where
  next_eq := by rw [h]
  isSome id hi := by rwa [installation?_congr h] at hi

/-- Who changes an installation in its place installs none. -/
theorem of_modify (home : InstallationId) (f : Installation → Installation)
    (h : w'.installations = w.installations.modify home.index f) : InstallsNothing w w' where
  next_eq := by rw [h, Store.modify]
  isSome id hi := by
    rw [installation?, h, Store.isSome_get?_modify] at hi
    exact hi

theorem trans {w'' : World} (h : InstallsNothing w w') (h' : InstallsNothing w' w'') :
    InstallsNothing w w'' where
  next_eq := h'.next_eq.trans h.next_eq
  isSome id hi := h.isSome id (h'.isSome id hi)

theorem prune (h : InstallsNothing w w') (id : InstallationId) :
    InstallsNothing w (w'.prune id).1 := by
  rw [World.prune]
  split
  · exact h
  · exact h.trans (.of_modify id _ (w'.forget_installations id))

theorem begins {w'' : World} (h : InstallsNothing w w') {cx wake} (hb : Begins w' cx wake w'') :
    InstallsNothing w w'' := by
  cases hb with
  | unparked hb hp => exact h.trans (.of_modify _ _ (w'.vacate_installations ..))
  | _ => exact h.trans (.of_eq rfl)

end InstallsNothing

end World

/-- An installation that is there was there before, or is new. -/
theorem Move.installs {w w' : World} (hm : Move w w') :
    World.InstallsNothing w w' ∨
      ∃ cx registry, (w.context? cx).isSome ∧ w' = w.install cx registry := by
  cases hm with
  | quiet h => exact .inl (.of_eq h.installations)
  | destroy r h =>
    have hd := w.destroys r
    generalize (w.destroy r).1 = w' at hd ⊢
    cases hd with
    | installation =>
      refine .inl ⟨rfl, fun id hi => ?_⟩
      rw [World.installation?, Store.get?_erase] at hi
      split at hi
      · cases hi
      · exact hi
    | channels hc =>
      refine .inl (.prune ?_ _)
      exact .of_eq rfl
    | abandoned hd ha => exact .inl (.of_eq (World.Posts.post (w.expire _) _ _).installations)
    | _ => exact .inl (.of_eq rfl)
  | @keepClass cx home i o e hb ho hc hf =>
    exact .inl (.of_modify home (fun i => { i with classes := i.classes ++ [e] }) rfl)
  | install registry hc => exact .inr ⟨_, registry, hc, rfl⟩
  | determine h =>
    obtain ⟨d, -, -, -, hp⟩ := World.determine_posts h
    exact .inl (.of_eq hp.installations)
  | @promise cx home i id d hb hd =>
    have hk := World.InstallsNothing.of_modify home _ (w.park_installations cx home i.nextSlot id)
    exact .inl (hk.trans (.of_eq (w.promise_installations cx home i.nextSlot hd)))
  | @setSubscriber cx home i c place callback hb =>
    refine .inl ?_
    unfold World.setSubscriber
    split
    · exact .of_eq rfl
    · refine .prune ?_ _
      exact .of_eq rfl
    · next f _ =>
      have hk := World.InstallsNothing.of_modify home _
        (w.keepCallback_installations home i.nextSlot f)
      refine .prune (hk.trans ?_) _
      exact .of_eq rfl
  | aim args h => exact .inl (.of_eq (World.Posts.aim w ..).installations)
  | arm h => exact .inl (.of_eq (World.Posts.arm w ..).installations)
  | launch h => exact .inl (.of_eq (World.Posts.launch w ..).installations)
  | take h =>
    obtain ⟨rest, -, rfl⟩ := World.take_cases h
    refine .inl (.begins ?_ (World.begins ..))
    exact .of_eq rfl
  | newTicket name h => exact .inl (.of_eq (World.Posts.newTicket w ..).installations)
  | sendTicket h label body => exact .inl (.of_eq (World.Posts.sendTicket w ..).installations)
  | _ => exact .inl (.of_eq rfl)

/-- **What becomes of an installation**: it goes only if nothing refers to it. -/
theorem Move.installation {w w' : World} (hm : Move w w') {id i}
    (hi : w.installation? id = some i) : (∃ i', w'.installation? id = some i' ∧ Alters w w' id i i') ∨
      .installation id ∉ w.references ∧ w'.installation? id = none := by
  cases hm with
  | quiet h => exact .inl (World.alters_congr h.installations hi)
  | destroy r h =>
    have hd := w.destroys r
    generalize (w.destroy r).1 = w' at hd ⊢
    cases hd with
    | @installation home =>
      by_cases he : id = home
      · exact .inr ⟨he ▸ h, by rw [World.installation?, Store.get?_erase, if_pos (congrArg _ he)]⟩
      · refine .inl ⟨i, ?_, .same⟩
        rw [World.installation?, Store.get?_erase, if_neg fun h => he (InstallationId.index_inj.1 h)]
        exact hi
    | channels hc => exact .inl (World.alters_prune (w := w.disconnect _ _) hi)
    | abandoned hd ha =>
      exact .inl (World.alters_congr (World.Posts.post (w.expire _) _ _).installations hi)
    | _ => exact .inl (World.alters_congr rfl hi)
  | @keepClass cx home i₀ o e hb ho hc hf =>
    refine .inl (World.alters_modify (f := fun i => { i with classes := i.classes ++ [e] }) rfl hi
      fun he => ?_)
    subst he
    obtain rfl : i = i₀ := Option.some.inj (hi.symm.trans (World.bridge?_eq_some.1 hb).2)
    exact .class e hb ho hc hf
  | install registry hc =>
    refine .inl ⟨i, ?_, .same⟩
    have hn : id.index ≠ w.installations.next := Nat.ne_of_lt (Store.lt_next_of_get? hi)
    rw [World.installation?, World.install, Store.get?_insert, if_neg hn]
    exact hi
  | determine h =>
    obtain ⟨d, -, -, -, hp⟩ := World.determine_posts h
    exact .inl (World.alters_congr hp.installations hi)
  | promise hb hd => exact .inl (World.alters_promise hb hd hi)
  | setSubscriber c place callback hb =>
    exact .inl (World.alters_setSubscriber hb c place callback hi)
  | aim args h => exact .inl (World.alters_congr (World.Posts.aim w ..).installations hi)
  | arm h => exact .inl (World.alters_congr (World.Posts.arm w ..).installations hi)
  | launch h => exact .inl (World.alters_congr (World.Posts.launch w ..).installations hi)
  | take h =>
    obtain ⟨rest, -, rfl⟩ := World.take_cases h
    exact .inl (World.alters_begin hi)
  | newTicket name h =>
    exact .inl (World.alters_congr (World.Posts.newTicket w ..).installations hi)
  | sendTicket h label body =>
    exact .inl (World.alters_congr (World.Posts.sendTicket w ..).installations hi)
  | _ => exact .inl (World.alters_congr rfl hi)

/-- **What a move does to an installation**: at most one entry more or one slot less. -/
theorem Move.alters {w w' : World} (hm : Move w w') {id i i'} (hi : w.installation? id = some i)
    (hi' : w'.installation? id = some i') : Alters w w' id i i' := by
  obtain ⟨i'', h, ha⟩ | ⟨-, h⟩ := hm.installation hi
  · obtain rfl : i' = i'' := Option.some.inj (hi'.symm.trans h)
    exact ha
  · cases hi'.symm.trans h

/-! ## Objects -/

/-- Objects are told apart by their number. -/
theorem ObjectId.index_inj {p p' : ObjectId} : p.index = p'.index ↔ p = p' := by
  cases p
  cases p'
  rw [mk.injEq]

/-- What a move can make of the objects. -/
inductive Reshapes (w w' : World) : Prop where
  | kept (h : ObjectsKept w.objects w'.objects)
  | destroyed (p : ObjectId) (hr : .object p ∉ w.references)
      (h : w'.objects = w.objects.erase p.index)
  | settled {cx slot status v rest p id registry state}
      (hd : w.delivering = (cx, .settle slot status v) :: rest)
      (hu : .unparked ⟨cx, slot⟩ p ∈ w.history) (hp : w.IsPending p)
      (hi : .installed cx id registry ∈ w.history) (hs : Settles w cx registry status v state)
      (hw : w' = w.fix p state)
  | settledOwn {p} (state : PromiseState) (hf : ¬ w.IsFuture p) (hp : w.IsPending p)
      (hw : w' = w.fix p state)

namespace World

variable {w w' : World}

/-- Registering and queueing leave all objects as they are. -/
theorem Posts.objects (h : Posts w w') : w'.objects = w.objects := by
  cases h with
  | _ => rfl

theorem Begins.objects {cx wake} (h : Begins w cx wake w') : w'.objects = w.objects := by
  cases h with
  | _ => rfl

theorem prune_objects (w : World) (id : InstallationId) : (w.prune id).1.objects = w.objects := by
  rw [prune]
  split
  · rfl
  · rfl

theorem setSubscriber_objects (w : World) (id : ChannelsId) (place : Nat) (home : InstallationId)
    (slot : Nat) (callback : Option ForeignValue) :
    (w.setSubscriber id place home slot callback).1.objects = w.objects := by
  unfold setSubscriber
  split
  · rfl
  · exact prune_objects (w.switch ..) home
  · next f _ => exact prune_objects ((w.keepCallback home slot f).switch ..) home

/-- Converting a deferred makes one object, its promise. -/
theorem promise_objects (w : World) (cx : ContextId) (home : InstallationId) (slot : Nat) {id d}
    (hd : w.deferred? id = some d) : (w.promise cx home slot id d).1.objects =
      w.objects.insert { context := cx, kind := .promise (.pending []) } := by
  obtain ⟨-, hp⟩ | ⟨-, hp⟩ := w.promise_posts cx home slot hd
  · exact hp.objects
  · exact hp.objects

end World

/-- **Objects**: one may go, one may be settled, and the others stay what they are. -/
theorem Move.objects {w w' : World} (hm : Move w w') : Reshapes w w' := by
  cases hm with
  | quiet h => exact .kept h.objects
  | destroy r h =>
    have hd := w.destroys r
    generalize (w.destroy r).1 = w' at hd ⊢
    cases hd with
    | object => exact .destroyed _ h rfl
    | channels hc => exact .kept (.of_eq (World.prune_objects (w.disconnect _ _) _))
    | abandoned hd ha => exact .kept (.of_eq (World.Posts.post (w.expire _) _ _).objects)
    | _ => exact .kept (.refl _)
  | determine h =>
    obtain ⟨d, -, -, -, hp⟩ := World.determine_posts h
    exact .kept (.of_eq hp.objects)
  | promise hb hd =>
    refine .kept ?_
    rw [w.promise_objects _ _ _ hd]
    exact .insert _ _ fun _ hk => nomatch hk
  | setSubscriber c place callback hb => exact .kept (.of_eq (w.setSubscriber_objects ..))
  | aim args h => exact .kept (.of_eq (World.Posts.aim w ..).objects)
  | arm h => exact .kept (.of_eq (World.Posts.arm w ..).objects)
  | launch h => exact .kept (.of_eq (World.Posts.launch w ..).objects)
  | take h =>
    obtain ⟨rest, -, rfl⟩ := World.take_cases h
    exact .kept (.of_eq (World.begins (w.pop _ _ rest) _ _).objects)
  | settle hd hu hp hi hs => exact .settled hd hu hp hi hs rfl
  | settleOwn state hf hp => exact .settledOwn state hf hp rfl
  | newTicket name h => exact .kept (.of_eq (World.Posts.newTicket w ..).objects)
  | sendTicket h label body => exact .kept (.of_eq (World.Posts.sendTicket w ..).objects)
  | _ => exact .kept (.refl _)

end Isthmus
