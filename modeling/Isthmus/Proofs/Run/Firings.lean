import Isthmus.Proofs.Run.Registrations

/-!
# Proofs/Run/Firings — from the subscriber to the queue

A firing takes the subscriber that is current, registers, and queues its event; whatever threads do may come
between these steps.  So firings that overlap may queue their events in another order than that in which
they took their subscribers.

* `Move.firing` — only the steps of firings bear on which subscribers were taken and which events queued.
* `Moves.queues` — the order of queueing never contradicts that of firings of which one had ended before
  the other began.
* `World.Prompt` — where no firing is interrupted, events are queued in the order in which subscribers were
  taken.
-/

namespace Isthmus

open History

variable {w w' : World} {cx : ContextId} {token : Token} {args : List NativeValue}

/-! ## The steps of a firing -/

namespace World

/-- The events that firings for a context have begun to queue. -/
def begunFor (w : World) (cx : ContextId) : List (Token × List NativeValue) :=
  w.begun.filterMap fun e => eventFor cx (some e)

/-- **A step of a firing**, for a subscriber and with arguments. -/
inductive Firing (w : World) (cx : ContextId) (token : Token) (args : List NativeValue) :
    World → Prop where
  /-- The firing takes its subscriber. -/
  | begins {key event} (h : w.subscriber? key event = some (cx, token)) :
      Firing w cx token args (w.aim cx token args)
  /-- The firing registers with the loop. -/
  | registers {before after} (h : w.errands = before ++ .aimed cx token args :: after) :
      Firing w cx token args (w.arm before after cx (.event token args))
  /-- The firing queues its event. -/
  | ends {before after} (h : w.errands = before ++ .armed cx (.event token args) :: after) :
      Firing w cx token args (w.launch before after cx (.event token args)).1

theorem Firing.move (h : w.Firing cx token args w') : Move w w' := by
  cases h with
  | begins h => exact .aim args h
  | registers h => exact .arm h
  | ends h => exact .launch h

/-- Nothing is delivered inside of a firing. -/
theorem Firing.delivers (h : w.Firing cx token args w') : w'.delivering = w.delivering ∧
    ∀ c, taken c w'.history = taken c w.history ∧ heard c w'.history = heard c w.history := by
  have hp : Posts w w' := by
    cases h with
    | begins h => exact .aim ..
    | registers h => exact .arm ..
    | ends h => exact .launch ..
  cases hp with
  | _ => exact ⟨rfl, fun _ => ⟨rfl, rfl⟩⟩

end World
/-! ## Subscribers taken and events queued -/

theorem seesEvents_aimed_sent (cx : ContextId) :
    SeesEvents fun h => (aimed cx h, Wake.events (sent cx h)) where
  aside h := by rw [h.aimed, h.sent]
  sent {c wake h} hw := by
    have ha : aimed cx (.sent c wake :: h) = aimed cx h := rfl
    have he : Wake.events [wake] = [] := List.filterMap_cons_none hw
    rw [ha, sent_sent]
    split
    · rw [Wake.events_append, he, List.append_nil]
    · rfl
  dropped _ := rfl

namespace World

/-- Queueing an event for an open loop. -/
theorem launch_history {before after : List Errand} (ho : (w.loopOf cx).isOpen) (wake : Wake) :
    (w.launch before after cx wake).1.history = .sent cx wake :: w.history := by
  have ho' : (World.loopOf { w with errands := before ++ after } cx).isOpen := ho
  rw [launch_of_isOpen ho, post, if_pos ho']

theorem launch_history_of_closed {before after : List Errand} (ho : ¬ (w.loopOf cx).isOpen)
    (wake : Wake) : (w.launch before after cx wake).1.history = .dropped cx wake :: w.history := by
  rw [launch_of_closed ho]
  rfl

/-- Queueing takes no subscriber. -/
theorem launch_aimed (w : World) (before after : List Errand) (cx : ContextId) (wake : Wake)
    (c : ContextId) : aimed c (w.launch before after cx wake).1.history = aimed c w.history := by
  by_cases ho : (w.loopOf cx).isOpen
  · rw [launch_history ho]
    rfl
  · rw [launch_history_of_closed ho]
    rfl

/-- Queueing an event for one context queues none for another. -/
theorem launch_eventsFor_of_ne (w : World) (before after : List Errand) (wake : Wake)
    {c : ContextId} (hc : cx ≠ c) : (w.launch before after cx wake).1.eventsFor c = w.eventsFor c := by
  rw [eventsFor, eventsFor]
  by_cases ho : (w.loopOf cx).isOpen
  · rw [launch_history ho, sent_sent, if_neg hc]
  · rw [launch_history_of_closed ho]
    rfl

/-- The end of a firing queues its event last, if the loop is open. -/
theorem launch_eventsFor (ho : (w.loopOf cx).isOpen) (before after : List Errand) (token : Token)
    (args : List NativeValue) : (w.launch before after cx (.event token args)).1.eventsFor cx =
      w.eventsFor cx ++ [(token, args)] := by
  rw [eventsFor, launch_history ho, sent_sent, if_pos rfl, Wake.events_append]
  rfl

end World

/-- **Only firings** take subscribers and queue events. -/
theorem Move.firing (hm : Move w w') (cx : ContextId) :
    (aimed cx w'.history = aimed cx w.history ∧ w'.eventsFor cx = w.eventsFor cx) ∨
      ∃ token args, w.Firing cx token args w' := by
  cases hm.stages (seesEvents_aimed_sent cx) with
  | same h => exact .inl (Prod.mk.inj h)
  | @aimed key event c t args h hw =>
    by_cases hc : c = cx
    · subst hc
      exact .inr ⟨t, args, hw ▸ .begins h⟩
    · refine .inl ⟨?_, hw ▸ rfl⟩
      rw [hw, World.aim, aimed_aimed, if_neg hc]
  | @launched before after c t args h hw =>
    by_cases hc : c = cx
    · subst hc
      exact .inr ⟨t, args, hw ▸ .ends h⟩
    · rw [hw]
      exact .inl ⟨w.launch_aimed .., w.launch_eventsFor_of_ne _ _ _ hc⟩
  | closed c hw =>
    have hh : (w.closeContext c).1.history =
        (w.loopOf c).queue.map (.dropped c) ++ .unbound c :: w.history := rfl
    rw [World.eventsFor, hw, hh, skip_dropped (f := sent cx) fun _ _ => rfl,
      skip_dropped (f := aimed cx) fun _ _ => rfl]
    exact .inl ⟨rfl, rfl⟩
  | taken h => exact .inl (Prod.mk.inj h)
  | heard hw =>
    rw [hw]
    exact .inl ⟨rfl, rfl⟩
  | ended hd hw =>
    rw [hw]
    exact .inl ⟨rfl, rfl⟩

/-! ## The order of queueing -/

/-- What firings for a context did between two worlds: those that were under way, and those that began since,
have queued their events since or are under way still. -/
def QueuesSince (w₀ w : World) (cx : ContextId) : Prop :=
  ∃ since more, aimed cx w.history = aimed cx w₀.history ++ since ∧
    w.eventsFor cx = w₀.eventsFor cx ++ more ∧
    (w₀.begunFor cx ++ since).Perm (more ++ w.begunFor cx)

namespace QueuesSince

variable {w₀ : World}

theorem refl (w : World) (cx : ContextId) : QueuesSince w w cx :=
  ⟨[], [], (List.append_nil _).symm, (List.append_nil _).symm, by rw [List.append_nil]; exact .refl _⟩

/-- The firings of a context stay as they are. -/
theorem congr (h : QueuesSince w₀ w cx) (ha : aimed cx w'.history = aimed cx w.history)
    (hs : w'.eventsFor cx = w.eventsFor cx) (hb : (w.begunFor cx).Perm (w'.begunFor cx)) :
    QueuesSince w₀ w' cx := by
  obtain ⟨since, more, haimed, hevents, hperm⟩ := h
  exact ⟨since, more, ha.trans haimed, hs.trans hevents, hperm.trans (hb.append_left _)⟩

/-- A firing begins. -/
theorem begins (h : QueuesSince w₀ w cx) (ha : aimed cx w'.history = aimed cx w.history ++ [(token, args)])
    (hs : w'.eventsFor cx = w.eventsFor cx) (hb : w'.begunFor cx = (token, args) :: w.begunFor cx) :
    QueuesSince w₀ w' cx := by
  obtain ⟨since, more, haimed, hevents, hperm⟩ := h
  refine ⟨since ++ [(token, args)], more, ?_, hs.trans hevents, ?_⟩
  · rw [ha, haimed, List.append_assoc]
  · rw [hb, ← List.append_assoc]
    exact (hperm.append_right _).trans (((List.perm_append_singleton ..).trans
      List.perm_middle.symm))

/-- A firing ends. -/
theorem ends (h : QueuesSince w₀ w cx) (ha : aimed cx w'.history = aimed cx w.history)
    (hs : w'.eventsFor cx = w.eventsFor cx ++ [(token, args)])
    (hb : (w.begunFor cx).Perm ((token, args) :: w'.begunFor cx)) : QueuesSince w₀ w' cx := by
  obtain ⟨since, more, haimed, hevents, hperm⟩ := h
  refine ⟨since, more ++ [(token, args)], ha.trans haimed, ?_, ?_⟩
  · rw [hs, hevents, List.append_assoc]
  · rw [List.append_assoc]
    exact hperm.trans (hb.append_left _)

end QueuesSince

namespace World

theorem begunFor_congr (h : w'.begun = w.begun) (cx : ContextId) :
    (w.begunFor cx).Perm (w'.begunFor cx) := by
  rw [begunFor, begunFor, h]

theorem launch_isOpen (w : World) (before after : List Errand) (cx : ContextId) (wake : Wake)
    (c : ContextId) : ((w.launch before after cx wake).1.loopOf c).isOpen = (w.loopOf c).isOpen := by
  by_cases ho : (w.loopOf cx).isOpen
  · rw [launch_of_isOpen ho, post_isOpen]
    rfl
  · rw [launch_of_closed ho, unregister_isOpen]
    rfl

/-- An errand that queues its wake is gone. -/
theorem begun_launch {before after : List Errand} {wake : Wake}
    (h : w.errands = before ++ .armed cx wake :: after) :
    w.begun.Perm ((wake.event?.map fun event => (cx, event)).toList ++
      (w.launch before after cx wake).1.begun) := by
  rw [begun, begun, launch_errands, h, List.filterMap_append, List.filterMap_append]
  cases hw : wake.event? with
  | none =>
    have he : (Errand.armed cx wake).event? = none := by rw [Errand.event?, hw, Option.map_none]
    rw [List.filterMap_cons_none he]
    exact .refl _
  | some event =>
    have he : (Errand.armed cx wake).event? = some (cx, event) := by
      rw [Errand.event?, hw, Option.map_some]
    rw [List.filterMap_cons_some he]
    exact List.perm_middle

/-- A context that is open when another one was closed was open before. -/
theorem isOpen_closeContext {c : ContextId} (h : ((w.closeContext c).1.loopOf cx).isOpen) :
    cx ≠ c ∧ (w.loopOf cx).isOpen := by
  have hl := w.closeContext_loops c
  by_cases hc : cx = c
  · subst hc
    have hs := isSome_loop?_of_isOpen h
    rw [isSome_loop?_modify hl] at hs
    rw [loopOf_modify_self hl hs] at h
    cases h
  · rw [loopOf_modify_of_ne hl hc] at h
    exact ⟨hc, h⟩

theorem mem_begunFor {e : Token × List NativeValue} : e ∈ w.begunFor cx ↔ (cx, e) ∈ w.begun := by
  rw [begunFor, List.mem_filterMap]
  constructor
  · rintro ⟨⟨c, e'⟩, hb, he⟩
    rw [eventFor] at he
    split at he
    · next hc =>
      cases he
      exact hc ▸ hb
    · cases he
  · exact fun hb => ⟨_, hb, if_pos rfl⟩

/-- A firing that has begun is about to queue its event. -/
theorem begunFor_aim (w : World) (cx : ContextId) (token : Token) (args : List NativeValue) :
    (w.aim cx token args).begunFor cx = (token, args) :: w.begunFor cx := by
  have hb : (w.aim cx token args).begun = (cx, token, args) :: w.begun := rfl
  have hone : eventFor cx (some (cx, token, args)) = some (token, args) := if_pos rfl
  rw [begunFor, hb, List.filterMap_cons_some (f := fun e => eventFor cx (some e)) hone, begunFor]

theorem begunFor_aim_of_ne (w : World) {c : ContextId} (hc : c ≠ cx) (token : Token)
    (args : List NativeValue) : (w.aim c token args).begunFor cx = w.begunFor cx := by
  have hb : (w.aim c token args).begun = (c, token, args) :: w.begun := rfl
  have hnone : eventFor cx (some (c, token, args)) = none := if_neg hc
  rw [begunFor, hb, List.filterMap_cons_none (f := fun e => eventFor cx (some e)) hnone, begunFor]

/-- A firing that queues its event has ended. -/
theorem begunFor_launch {before after : List Errand}
    (h : w.errands = before ++ .armed cx (.event token args) :: after) : (w.begunFor cx).Perm
      ((token, args) :: (w.launch before after cx (.event token args)).1.begunFor cx) := by
  have hone : eventFor cx (some (cx, token, args)) = some (token, args) := if_pos rfl
  have hb := (begun_launch h).filterMap fun e => eventFor cx (some e)
  rwa [Wake.event?, Option.map_some, Option.toList_some, List.singleton_append,
    List.filterMap_cons_some (f := fun e => eventFor cx (some e)) hone] at hb

/-- What else queues its wake leaves the firings for the context alone. -/
theorem begunFor_launch_of_ne {before after : List Errand} {c : ContextId} {wake : Wake}
    (h : w.errands = before ++ .armed c wake :: after) (hn : ∀ event ∈ wake.event?, c ≠ cx) :
    (w.begunFor cx).Perm ((w.launch before after c wake).1.begunFor cx) := by
  have hb := (begun_launch h).filterMap fun e => eventFor cx (some e)
  cases hw : wake.event? with
  | none => rwa [hw] at hb
  | some event =>
    have hnone : eventFor cx (some (c, event)) = none := if_neg (hn event hw)
    rwa [hw, Option.map_some, Option.toList_some, List.singleton_append,
      List.filterMap_cons_none (f := fun e => eventFor cx (some e)) hnone] at hb

/-- Where there is no loop, nothing was ever fired. -/
theorem idle_of_loop?_eq_none (h : Reachable w) (hl : w.loop? cx = none) :
    aimed cx w.history = [] ∧ w.eventsFor cx = [] ∧ w.begunFor cx = [] := by
  have hn {token args} (ha : .aimed cx token args ∈ w.history) : False := by
    obtain ⟨-, id, registry, hi, -⟩ := h.rooted.aimed ha
    have := h.isSome_loop?_of_installed hi
    rw [hl] at this
    cases this
  refine ⟨?_, ?_, ?_⟩
  · exact List.eq_nil_iff_forall_not_mem.2 fun e he => hn (mem_aimed.1 he)
  · refine List.eq_nil_iff_forall_not_mem.2 fun e he => ?_
    exact hn (h.aimed_of_sent (mem_sent.1 (Wake.mem_events.1 he)))
  · refine List.eq_nil_iff_forall_not_mem.2 fun e he => ?_
    exact hn (h.aimed_of_begun (mem_begunFor.1 he))

end World

namespace QueuesSince

variable {w₀ : World}

theorem launch (h : QueuesSince w₀ w cx) (ho : (w.loopOf cx).isOpen) {before after : List Errand}
    {c : ContextId} {wake : Wake} (he : w.errands = before ++ .armed c wake :: after) :
    QueuesSince w₀ (w.launch before after c wake).1 cx := by
  have plain (hw : wake.event? = none) : QueuesSince w₀ (w.launch before after c wake).1 cx := by
    obtain ⟨ha, hs⟩ := Prod.mk.inj ((seesEvents_aimed_sent cx).launch w before after c hw)
    exact h.congr ha hs (World.begunFor_launch_of_ne he (by simp [hw]))
  cases wake with
  | settle slot status v => exact plain rfl
  | script label body => exact plain rfl
  | event token args =>
    by_cases hc : c = cx
    · subst hc
      exact h.ends (w.launch_aimed ..) (World.launch_eventsFor ho ..) (World.begunFor_launch he)
    · exact h.congr (w.launch_aimed ..) (w.launch_eventsFor_of_ne _ _ _ hc)
        (World.begunFor_launch_of_ne he fun _ _ => hc)

theorem loopLaw (w₀ : World) (cx : ContextId) :
    LoopLaw fun w => (w.loopOf cx).isOpen → QueuesSince w₀ w cx where
  aside h hw ho := (hw (h.loopOf cx ▸ ho)).congr (h.aimed cx)
    (by rw [World.eventsFor, h.sent, World.eventsFor]) (World.begunFor_congr h.begun cx)
  register {w} c hw ho := (hw (w.register_isOpen c cx ▸ ho)).congr rfl rfl (.refl _)
  unregister {w} c hw ho := (hw (w.unregister_isOpen c cx ▸ ho)).congr rfl rfl (.refl _)
  post {w} c wake hp hw ho := by
    obtain ⟨ha, hs⟩ := Prod.mk.inj ((seesEvents_aimed_sent cx).post w c hp)
    refine (hw (w.post_isOpen c wake cx ▸ ho)).congr ha hs (World.begunFor_congr ?_ cx)
    rw [World.begun, World.post_errands, World.begun]
  errands {w es} he hw ho := by
    have hbegun : World.begun { w with errands := es } = w.begun := he
    exact (hw ho).congr rfl rfl (World.begunFor_congr hbegun cx)
  aim {w} c token args hw ho := by
    by_cases hc : c = cx
    · subst hc
      exact (hw ho).begins (if_pos rfl) rfl (w.begunFor_aim ..)
    · exact (hw ho).congr (if_neg hc) rfl (.of_eq (w.begunFor_aim_of_ne hc ..).symm)
  launch {w before after c wake} he hw ho := by
    rw [w.launch_isOpen] at ho
    exact (hw ho).launch ho he

end QueuesSince

/-- **The order of queueing**: whatever firings do between two worlds, those that had queued their events in
the first come before those that began after it. -/
theorem Moves.queues {w₀ : World} (h₀ : Reachable w₀) (hm : Moves w₀ w)
    (ho : (w.loopOf cx).isOpen) : QueuesSince w₀ w cx := by
  induction hm with
  | refl => exact .refl ..
  | @tail w w' hm hstep ih =>
    refine (QueuesSince.loopLaw w₀ cx).move ih hstep (fun global ho => ?_) (fun c ho => ?_)
      (fun c wake w₁ ht ho => ?_) (fun c token args verdict hu => ih)
      (fun c wake rest broke hd hu ho => ?_) ho
    · rw [World.loopOf_openContext] at ho
      split at ho
      · next hc =>
        -- the loop is new, so nothing was ever fired for it
        have hl : w.loop? cx = none := by
          rw [World.loop?, hc]
          exact Store.get?_next _
        have hl₀ : w₀.loop? cx = none := by
          refine Option.not_isSome_iff_eq_none.1 fun hs => ?_
          have := Moves.isSome_loop? hm hs
          rw [hl] at this
          cases this
        obtain ⟨ha, hs, hb⟩ := World.idle_of_loop?_eq_none (h₀.moves hm) hl
        obtain ⟨ha₀, hs₀, hb₀⟩ := World.idle_of_loop?_eq_none h₀ hl₀
        refine ⟨[], [], ?_, ?_, ?_⟩
        · rw [ha₀]
          exact ha
        · rw [hs₀]
          exact hs
        · rw [hb₀, List.append_nil, List.nil_append]
          exact .of_eq hb.symm
      · exact (ih ho).congr rfl rfl (.refl _)
    · obtain ⟨hc, ho⟩ := World.isOpen_closeContext ho
      exact (ih ho).congr (skip_dropped (f := aimed cx) (fun _ _ => rfl) ..)
        (congrArg Wake.events (skip_dropped (f := sent cx) (fun _ _ => rfl) ..)) (.refl _)
    · obtain ⟨rest, -, rfl⟩ := World.take_cases ht
      rw [World.loopOf_modify_part Loop.isOpen (w.pop_loops c wake rest) fun _ => rfl] at ho
      exact (ih ho).congr rfl rfl (.refl _)
    · rw [World.finish, World.unregister_isOpen] at ho
      exact (ih ho).congr rfl rfl (.refl _)

/-! ## Firings that are not interrupted -/

/-- A loop that is open was open before, or it is new. -/
theorem Move.isOpen (hm : Move w w') (h : (w'.loopOf cx).isOpen) :
    (w.loopOf cx).isOpen ∨ w.loop? cx = none := by
  have hlaw : PostLaw fun v => (v.loopOf cx).isOpen → (w.loopOf cx).isOpen ∨ w.loop? cx = none := by
    refine ⟨fun h hv ho => hv (h.loopOf cx ▸ ho), fun {v} c hv ho => hv (v.register_isOpen c cx ▸ ho),
      fun {v} c hv ho => hv (v.unregister_isOpen c cx ▸ ho),
      fun {v} c wake hv ho => hv (v.post_isOpen c wake cx ▸ ho), fun h hv => ?_⟩
    cases h with
    | _ => exact hv
  refine hlaw.loopLaw.move .inl hm (fun global ho => ?_)
    (fun c ho => .inl (World.isOpen_closeContext ho).2) (fun c wake w₁ ht ho => .inl ?_)
    (fun c token args verdict hu => .inl) (fun c wake rest broke hd hu ho => .inl ?_) h
  · rw [World.loopOf_openContext] at ho
    split at ho
    · next hc =>
      rw [World.loop?, hc]
      exact .inr (Store.get?_next _)
    · exact .inl ho
  · obtain ⟨rest, -, rfl⟩ := World.take_cases ht
    rwa [World.loopOf_modify_part Loop.isOpen (w.pop_loops c wake rest) fun _ => rfl] at ho
  · rwa [World.finish, World.unregister_isOpen] at ho

namespace World.Prompt

theorem move (h : w.Prompt) (hr : Reachable w) (hm : Move w w') (he : w'.errands = w.errands) :
    w'.Prompt := by
  intro cx ho
  have hsame : aimed cx w'.history = aimed cx w.history ∧ w'.eventsFor cx = w.eventsFor cx := by
    obtain hsame | ⟨token, args, hf⟩ := hm.firing cx
    · exact hsame
    · cases hf with
      | begins hs => exact absurd he (List.cons_ne_self _ _)
      | registers hs => exact ⟨rfl, rfl⟩
      | @ends before after hs =>
        rw [launch_errands, hs] at he
        cases List.append_cancel_left he
  rw [hsame.1, hsame.2]
  obtain ho | hl := hm.isOpen ho
  · exact h cx ho
  · obtain ⟨ha, hs, -⟩ := idle_of_loop?_eq_none hr hl
    rw [ha, hs]

theorem fire (h : w.Prompt) (id : ChannelsId) (event : Nat) (args : List NativeValue) :
    (w.fire id event args).1.Prompt := by
  rw [World.fire]
  split
  · next c token hs =>
    intro cx ho
    generalize hw₁ : (w.aim c token args).arm [] w.errands c (.event token args) = w₁ at ho ⊢
    have ho₁ (c' : ContextId) : (w₁.loopOf c').isOpen = (w.loopOf c').isOpen :=
      hw₁ ▸ register_isOpen { w.aim c token args with
        errands := [] ++ Errand.armed c (.event token args) :: w.errands } c c'
    have hh : w₁.history = .aimed c token args :: w.history := hw₁ ▸ rfl
    have he : w₁.eventsFor cx = w.eventsFor cx := hw₁ ▸ rfl
    rw [launch_isOpen, ho₁] at ho
    rw [launch_aimed, hh, aimed_aimed, h cx ho]
    split
    · next hc =>
      subst hc
      rw [launch_eventsFor (ho₁ c ▸ ho), he]
    · next hc => rw [launch_eventsFor_of_ne _ _ _ _ hc, he]
  · exact h

theorem complete (h : w.Prompt) {id status v more} (hc : w.complete id status v = some (w', more)) :
    w'.Prompt := by
  obtain ⟨d, -, -, -, rfl⟩ := World.complete_cases hc
  split
  · next k _ =>
    intro cx ho
    rw [launch_isOpen] at ho
    have hn : Wake.event? (.settle k.slot status v) = none := rfl
    have hsame := (seesEvents_aimed_sent cx).launch (w.fulfil id { status, value := v } status v) []
      w.errands k.context hn
    obtain ⟨ha, hs⟩ := Prod.mk.inj hsame
    rw [ha, eventsFor, hs]
    exact h cx ho
  · exact h

end World.Prompt

end Isthmus
