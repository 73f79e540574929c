import Isthmus.Proofs.Run.Session

/-!
# Proofs/Run/Settlement — every promise that was made for a deferred

* `Reachable.parked_iff_lost` — once a loop is idle, the promises that are still parked are those whose
  deferred was converted again before it was complete; all others are settled.
* `Reachable.settledOnce` — a promise is settled by the loop, once, with the first outcome of its deferred.
-/

namespace Isthmus

open History

/-! ## Idle loops -/

namespace DoubleConversion

/-! A deferred that is converted twice before it is complete: the second promise is settled, and the
first one stays. -/

def once : World :=
  (World.hosted.newDeferred.promise ⟨0⟩ ⟨0⟩ 1 ⟨0⟩ {}).1

def twice : World :=
  (once.promise ⟨0⟩ ⟨0⟩ 2 ⟨0⟩ { continuation := some ⟨⟨0⟩, 1⟩ }).1

def completed : World :=
  ((twice.complete ⟨0⟩ .resolved (.bool true)).map Prod.fst).getD twice

def taken : World :=
  (completed.pop ⟨0⟩ (.settle 2 .resolved (.bool true)) []).begin ⟨0⟩
    (.settle 2 .resolved (.bool true))

def settled : World :=
  (taken.fix ⟨1⟩ (.fulfilled (.bool true))).finish ⟨0⟩ (.settle 2 .resolved (.bool true)) false

theorem reachable_taken : Reachable taken := by
  have honce : Moves World.hosted once :=
    .tail (.single .newDeferred) (.promise (i := { registry := .base }) rfl rfl)
  have htwice : Move once twice :=
    .promise (i := { registry := .base, resolvers := [(1, ⟨0⟩)], nextSlot := 2 }) rfl rfl
  have hcompleted : Moves twice completed := by
    have h : twice.complete ⟨0⟩ .resolved (.bool true) = some (completed, []) := rfl
    exact .complete h
  have htaken : Move completed taken := by
    have h : completed.take ⟨0⟩ = some (.settle 2 .resolved (.bool true),
      completed.pop ⟨0⟩ (.settle 2 .resolved (.bool true)) []) := rfl
    exact .take h
  exact reachable_hosted.moves (((honce.tail htwice).trans hcompleted).tail htaken)

theorem taken_history : taken.history =
    [.unparked ⟨⟨0⟩, 2⟩ ⟨1⟩, .taken ⟨0⟩ (.settle 2 .resolved (.bool true)),
      .sent ⟨0⟩ (.settle 2 .resolved (.bool true)), .completed ⟨0⟩ .resolved (.bool true),
      .promised ⟨⟨0⟩, 2⟩ ⟨1⟩ ⟨0⟩, .promised ⟨⟨0⟩, 1⟩ ⟨0⟩ ⟨0⟩, .installed ⟨0⟩ ⟨0⟩ .base] := rfl

theorem reachable_settled : Reachable settled := by
  have hunparked : .unparked ⟨⟨0⟩, 2⟩ ⟨1⟩ ∈ taken.history := by simp [taken_history]
  have hinstalled : .installed ⟨0⟩ ⟨0⟩ .base ∈ taken.history := by simp [taken_history]
  have hconverts : (Engine.toForeign (Session.runner 0) ⟨0⟩ .base (.bool true)).run taken =
    .ok (.ok (.bool true)) taken := rfl
  have hfix : Move taken (taken.fix ⟨1⟩ (.fulfilled (.bool true))) :=
    .settle rfl hunparked ⟨{ context := ⟨0⟩, kind := .promise (.pending []) }, [], rfl, rfl⟩
      hinstalled (.converted hconverts)
  have hsettled : Move (taken.fix ⟨1⟩ (.fulfilled (.bool true))) settled := by
    refine .finish rfl rfl fun _ slot status v hw => ?_
    cases hw
    refine ⟨⟨1⟩, hunparked, ?_⟩
    rintro ⟨o, r, ho, hk⟩
    cases ho
    cases hk
  exact reachable_taken.moves ((Relation.ReflTransGen.single hfix).tail hsettled)

end DoubleConversion

/-- When nothing is coming, only a deferred that has forgotten its promise keeps it parked. -/
theorem Reachable.due_of_idle {w : World} (h : Reachable w) {cx : ContextId}
    (hl : (w.loopOf cx).live = 0) (slot : Nat) :
    w.due ⟨cx, slot⟩ = (lost ⟨cx, slot⟩ w.history).toNat := by
  obtain ⟨hq, hwait, -, harmed⟩ := h.idle hl
  have hnone : w.waiting (· = ⟨cx, slot⟩) = 0 := by
    refine World.waiting_eq_zero (fun k hk => ?_) hwait
    rw [of_decide_eq_true hk]
    exact decide_eq_true rfl
  have herrands : w.errands.countP (Errand.settles ⟨cx, slot⟩) = 0 := by
    refine Nat.le_zero.1 (harmed ▸ List.countP_mono_left fun e _ he => ?_)
    cases e with
    | aimed c token args => cases he
    | armed c wake => exact (Bool.and_eq_true_iff.1 he).1
  rw [World.due, hnone, World.coming, hq, List.countP_nil, herrands, Nat.zero_add]

/-- A parked promise is pending. -/
theorem Reachable.pending_of_parked {w : World} (h : Reachable w) {cx id registry i e d}
    (hi : .installed cx id registry ∈ w.history) (h1 : bindings cx w.history = 1)
    (hid : w.installation? id = some i) (he : e ∈ i.resolvers)
    (hp : .promised ⟨cx, e.1⟩ e.2 d ∈ w.history) : w.IsPending e.2 := by
  obtain ⟨o, ho⟩ := Option.isSome_iff_exists.1 (h.parked.isSome hid he)
  obtain ⟨r, hr⟩ | ⟨state, -, hs⟩ := h.future h1 hp ho
  · exact ⟨o, r, ho, hr⟩
  · obtain ⟨-, hu, -, -, -, -⟩ := hs
    exact absurd hu (h.parked.waits hi h1 hid he)

/-- Once no delivery of its loop is under way, a promise that left its slot is settled, unless its delivery
was broken off. -/
theorem Reachable.settled_of_unparked {w : World} (h : Reachable w) {cx slot p d}
    (h1 : bindings cx w.history = 1) (hp : .promised ⟨cx, slot⟩ p d ∈ w.history)
    (hu : .unparked ⟨cx, slot⟩ p ∈ w.history) (hd : ∀ e ∈ w.delivering, e.1 ≠ cx) :
    ¬ w.IsPending p ∨ ∃ status v, .ended cx (.settle slot status v) true ∈ w.history := by
  obtain ⟨status, v, hm⟩ | ⟨status, v, broke, he⟩ := h.unparked hu
  · exact absurd rfl (hd _ hm)
  · cases broke with
    | true => exact .inr ⟨status, v, he⟩
    | false =>
      obtain ⟨p', hu', hn⟩ := h.ended he
      obtain ⟨d', hp'⟩ := h.promised.unparked hu'
      obtain ⟨rfl, -⟩ := h.promised.slot h1 hp hp'
      exact .inl hn

/-- **Promises that are left over**: once the loop of a context is idle, the promises that are still
parked are those whose deferred was converted again while it was pending.  They stay pending; every other
promise is settled, unless its delivery was broken off. -/
theorem Reachable.parked_iff_lost {w : World} (h : Reachable w) {cx id i}
    (hb : w.bridge? cx = some (id, i)) (h1 : bindings cx w.history = 1)
    (hl : (w.loopOf cx).live = 0) :
    (∀ slot, slot ∈ i.resolvers.map (·.1) ↔ lost ⟨cx, slot⟩ w.history) ∧
      ∀ slot p d, .promised ⟨cx, slot⟩ p d ∈ w.history →
        (lost ⟨cx, slot⟩ w.history → w.IsPending p) ∧
          (¬ lost ⟨cx, slot⟩ w.history → ¬ w.IsPending p ∨
            ∃ status v, .ended cx (.settle slot status v) true ∈ w.history) := by
  obtain ⟨hd, hid⟩ := World.bridge?_eq_some.1 hb
  obtain ⟨i', hid', hi⟩ := h.bridged.installed hd
  obtain rfl : i = i' := Option.some.inj (hid.symm.trans hid')
  have hslots (slot : Nat) : slot ∈ i.resolvers.map (·.1) ↔ lost ⟨cx, slot⟩ w.history := by
    have hc := h.claimed (Nat.le_of_eq h1) slot
    rw [World.slots_of_bridge? hb, h.due_of_idle hl] at hc
    rw [← List.count_pos_iff, hc]
    cases lost ⟨cx, slot⟩ w.history with
    | true => exact iff_of_true Nat.one_pos rfl
    | false => exact iff_of_false (Nat.lt_irrefl 0) Bool.false_ne_true
  refine ⟨hslots, fun slot p d hp => ?_⟩
  have hparked := h.parked.parked hi h1 hid hp
  constructor
  · intro hlost
    obtain ⟨e, he, rfl⟩ := List.mem_map.1 ((hslots slot).2 hlost)
    have hmem := hparked.resolve_right (h.parked.waits hi h1 hid he)
    exact h.pending_of_parked (e := (e.1, p)) hi h1 hid hmem hp
  · intro hlost
    have hu : .unparked ⟨cx, slot⟩ p ∈ w.history :=
      hparked.resolve_left fun hm => hlost ((hslots slot).1 (List.mem_map_of_mem hm))
    exact h.settled_of_unparked h1 hp hu (h.idle hl).2.2.1

/-- The first promise of a deferred that was converted twice stays parked. -/
theorem parked_of_converted_twice : ∃ i, DoubleConversion.settled.bridge? ⟨0⟩ = some (⟨0⟩, i) ∧
    (DoubleConversion.settled.loopOf ⟨0⟩).live = 0 ∧ 1 ∈ i.resolvers.map (·.1) := by
  have hb : DoubleConversion.settled.bridge? ⟨0⟩ =
    some (⟨0⟩, { registry := .base, resolvers := [(1, ⟨0⟩)], nextSlot := 3 }) := rfl
  have h := DoubleConversion.reachable_settled.parked_iff_lost hb rfl rfl
  exact ⟨_, hb, rfl, (h.1 1).2 rfl⟩

/-! ## Settlement -/

/-- A promise that was made for a deferred is settled by the loop, once, with the first outcome of the
deferred. -/
structure SettledOnce (w : World) (k : Settlement) (p : ObjectId) (d : DeferredId) : Prop where
  /-- It is pending until the delivery of the wake of its slot begins. -/
  waits : (∀ status v, .taken k.context (.settle k.slot status v) ∉ w.history) → w.IsPending p
  /-- Nothing but that delivery settles it. -/
  turn : ∀ w' state, Move w w' → w.IsPending p → w'.IsSettled p state →
    (∃ status v rest, w.delivering = (k.context, .settle k.slot status v) :: rest) ∧ w' = w.fix p state
  /-- It shows the outcome of its deferred. -/
  shows : ∀ state, w.IsSettled p state → Shows w k p d state
  /-- It never changes afterwards. -/
  stays : ∀ w' state, Moves w w' → w.IsSettled p state →
    w'.object? p = none ∨ w'.IsSettled p state
  /-- The deferred has its outcome from the first completion, or from the end of its last handle. -/
  decides : ∀ w' status v, Move w w' → outcome? d w.history = none →
    outcome? d w'.history = some (status, v) → Decides w w' d status v
  /-- Later completions change nothing. -/
  first : ∀ w' o, Moves w w' → outcome? d w.history = some o → outcome? d w'.history = some o
  /-- The delivery found the promise. -/
  found : .missed k ∉ w.history
  /-- Between the steps of a session it is settled once it is no longer parked, unless its delivery was
  broken off. -/
  session : w.OfSession → w.IsPending p →
    (∃ id i, w.bridge? k.context = some (id, i) ∧ (k.slot, p) ∈ i.resolvers) ∨
      ∃ status v, .ended k.context (.settle k.slot status v) true ∈ w.history

theorem Reachable.settledOnce {w : World} (h : Reachable w) {k p d id i}
    (hb : w.bridge? k.context = some (id, i)) (h1 : bindings k.context w.history = 1)
    (hp : .promised k p d ∈ w.history) : SettledOnce w k p d where
  waits ht := by
    obtain ⟨hd, hid⟩ := World.bridge?_eq_some.1 hb
    obtain ⟨i', hid', hi⟩ := h.bridged.installed hd
    obtain rfl : i = i' := Option.some.inj (hid.symm.trans hid')
    obtain hm | hu := h.parked.parked hi h1 hid hp
    · exact h.pending_of_parked (e := (k.slot, p)) hi h1 hid hm hp
    · obtain ⟨status, v, hm⟩ := h.unparked_taken hu
      exact absurd hm (ht status v)
  turn w' state hm hpend hs := by
    obtain ⟨⟨o', ho', hk'⟩, hn⟩ := hs
    obtain ⟨o₀, r, ho₀, hk⟩ := hpend
    obtain ⟨o, ho, ht⟩ := hm.object (h.promised.lt hp) ho'
    obtain rfl : o = o₀ := Option.some.inj (ho.symm.trans ho₀)
    rw [hk, hk'] at ht
    cases ht with
    | same => exact absurd rfl (hn r)
    | awaited _ r' => exact absurd rfl (hn r')
    | settled hd hu hi hs hw =>
      obtain ⟨d', hp'⟩ := h.promised.unparked hu
      obtain ⟨rfl, -⟩ := h.promised.unique hp hp'
      exact ⟨⟨_, _, _, hd⟩, hw⟩
    | settledOwn hf => exact absurd ⟨k, d, hp⟩ hf
  shows state hs := by
    obtain ⟨⟨o, ho, hk⟩, hn⟩ := hs
    obtain ⟨r, hr⟩ | ⟨state', hk', hs⟩ := h.future h1 hp ho
    · cases hk.symm.trans hr
      exact absurd rfl (hn r)
    · cases hk.symm.trans hk'
      exact hs
  stays w' state hm hs := hm.settled hs
  decides w' status v hm ho ho' := by
    obtain hsame | ⟨id, status', v', hd, hsame⟩ := hm.outcome
    · rw [hsame, ho] at ho'
      cases ho'
    · rw [hsame] at ho'
      split at ho'
      · next hid =>
        cases ho'
        exact hid ▸ hd
      · rw [ho] at ho'
        cases ho'
  first w' o hm ho := hm.outcome h ho
  found := h.not_missed (Nat.le_of_eq h1)
  session hsession hpend := by
    obtain ⟨hd, hid⟩ := World.bridge?_eq_some.1 hb
    obtain ⟨i', hid', hi⟩ := h.bridged.installed hd
    obtain rfl : i = i' := Option.some.inj (hid.symm.trans hid')
    obtain hm | hu := h.parked.parked hi h1 hid hp
    · exact .inl ⟨id, i, hb, hm⟩
    · obtain ⟨-, hrests⟩ := reachable_session hsession
      have hnone : ∀ e ∈ w.delivering, e.1 ≠ k.context := hrests.delivering ▸ nofun
      exact .inr ((h.settled_of_unparked h1 hp hu hnone).resolve_left fun hn => hn hpend)

/-- The second promise of a deferred that was converted twice is settled once. -/
theorem settledOnce_of_converted_twice :
    SettledOnce DoubleConversion.settled ⟨⟨0⟩, 2⟩ ⟨1⟩ ⟨0⟩ ∧
      DoubleConversion.settled.IsSettled ⟨1⟩ (.fulfilled (.bool true)) := by
  have hp : .promised ⟨⟨0⟩, 2⟩ ⟨1⟩ ⟨0⟩ ∈ DoubleConversion.settled.history :=
    List.mem_cons_of_mem _ (by simp [DoubleConversion.taken_history, World.fix])
  refine ⟨DoubleConversion.reachable_settled.settledOnce rfl rfl hp, ?_, by simp⟩
  exact ⟨{ context := ⟨0⟩, kind := .promise (.fulfilled (.bool true)) }, rfl, rfl⟩

end Isthmus
