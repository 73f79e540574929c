import Isthmus.Proofs.Run.Loops

/-!
# Proofs/Run/Deferreds — a deferred and what the history tells of it

`Reachable.tracked`: a deferred is pending as long as the history has no outcome for it, its continuation
is the settlement that was promised last, and once it is complete it keeps the outcome.
-/

namespace Isthmus

open History

theorem DeferredId.index_inj {d d' : DeferredId} : d.index = d'.index ↔ d = d' := by
  cases d
  cases d'
  rw [mk.injEq]

/-- The deferreds are as the history tells. -/
structure Tracked (w : World) : Prop where
  pending : ∀ {id d}, w.deferred? id = some d → d.status = .pending →
    outcome? id w.history = none ∧ d.continuation = latest id w.history
  complete : ∀ {id d}, w.deferred? id = some d → d.status ≠ .pending →
    outcome? id w.history = some (d.status, d.value)
  unborn : ∀ {id : DeferredId}, w.deferreds.next ≤ id.index →
    outcome? id w.history = none ∧ latest id w.history = none

namespace Tracked

variable {w w' : World}

theorem congr (hw : Tracked w) (hd : w'.deferreds = w.deferreds)
    (ho : ∀ id, outcome? id w'.history = outcome? id w.history)
    (hl : ∀ id, latest id w'.history = latest id w.history) : Tracked w' where
  pending {id d} h hs := by
    rw [World.deferred?, hd] at h
    rw [ho, hl]
    exact hw.pending h hs
  complete {id d} h hs := by
    rw [World.deferred?, hd] at h
    rw [ho]
    exact hw.complete h hs
  unborn {id} h := by
    rw [hd] at h
    rw [ho, hl]
    exact hw.unborn h

theorem posts (hw : Tracked w) (h : World.Posts w w') : Tracked w' := by
  cases h with
  | _ => exact hw.congr rfl (fun _ => rfl) fun _ => rfl

theorem begins (hw : Tracked w) {cx wake} (h : World.Begins w cx wake w') : Tracked w' := by
  cases h with
  | _ => exact hw.congr rfl (fun _ => rfl) fun _ => rfl

theorem prune (hw : Tracked w) (id : InstallationId) : Tracked (w.prune id).1 := by
  rw [World.prune]
  split
  · exact hw
  · exact hw.congr rfl (fun _ => rfl) fun _ => rfl

/-! ## Deferreds that change or go -/

/-- A deferred that is there was born. -/
theorem ne_of_unborn {id id' : DeferredId} {d} (hd : w.deferred? id = some d)
    (h : w.deferreds.next ≤ id'.index) : id ≠ id' := by
  rintro rfl
  exact absurd (Store.lt_next_of_get? hd) (Nat.not_lt.2 h)

/-- After one deferred changed, it is as it was changed, and any other is as it was. -/
theorem of_modify {id id' : DeferredId} {d d'} {f : Deferred Settlement → Deferred Settlement}
    (hd : w.deferred? id = some d) (h : (w.deferreds.modify id.index f).get? id'.index = some d') :
    id = id' ∧ d' = f d ∨ id ≠ id' ∧ w.deferred? id' = some d' := by
  rw [Store.get?_modify] at h
  split at h
  · next hi =>
    rw [hi, show w.deferreds.get? id.index = some d from hd] at h
    exact .inl ⟨(DeferredId.index_inj.1 hi).symm, (Option.some.inj h).symm⟩
  · next hi => exact .inr ⟨fun he => hi (he ▸ rfl), h⟩

/-- After one deferred went, any other is as it was. -/
theorem of_erase {id id' : DeferredId} {d'}
    (h : (w.deferreds.erase id.index).get? id'.index = some d') :
    id ≠ id' ∧ w.deferred? id' = some d' := by
  rw [Store.get?_erase] at h
  split at h
  · cases h
  · next hi => exact ⟨fun he => hi (he ▸ rfl), h⟩

theorem fulfil (hw : Tracked w) {id d} (hd : w.deferred? id = some d) {status : DeferredStatus}
    (hs : status ≠ .pending) (v : NativeValue) :
    Tracked (w.fulfil id { status, value := v } status v) where
  pending {id' d'} h hs' := by
    obtain ⟨-, rfl⟩ | ⟨hn, h⟩ := of_modify hd h
    · exact absurd hs' hs
    · rw [World.fulfil, outcome?, if_neg hn]
      exact hw.pending h hs'
  complete {id' d'} h hs' := by
    obtain ⟨rfl, rfl⟩ | ⟨hn, h⟩ := of_modify hd h
    · rw [World.fulfil, outcome?, if_pos rfl]
    · rw [World.fulfil, outcome?, if_neg hn]
      exact hw.complete h hs'
  unborn {id'} h := by
    rw [World.fulfil, outcome?, if_neg (ne_of_unborn hd h)]
    exact hw.unborn h

theorem of_determine (hw : Tracked w) {id status v} (h : w.determine id status v = some w') :
    Tracked w' := by
  obtain ⟨d, hd, -, hs, hp⟩ := World.determine_posts h
  exact (hw.fulfil hd hs v).posts hp

theorem erase (hw : Tracked w) (id : DeferredId) :
    Tracked { w with deferreds := w.deferreds.erase id.index } where
  pending h hs := hw.pending (of_erase h).2 hs
  complete h hs := hw.complete (of_erase h).2 hs
  unborn h := hw.unborn h

theorem expire (hw : Tracked w) {id d} (hd : w.deferred? id = some d) :
    Tracked (w.expire id) where
  pending {id' d'} h hs := by
    obtain ⟨hn, h⟩ := of_erase h
    rw [World.expire, outcome?, if_neg hn]
    exact hw.pending h hs
  complete {id' d'} h hs := by
    obtain ⟨hn, h⟩ := of_erase h
    rw [World.expire, outcome?, if_neg hn]
    exact hw.complete h hs
  unborn {id'} h := by
    rw [World.expire, outcome?, if_neg (ne_of_unborn hd h)]
    exact hw.unborn h

/-- A complete deferred may be promised again. -/
theorem park (hw : Tracked w) (cx : ContextId) (home : InstallationId) (slot : Nat) {id d}
    (hd : w.deferred? id = some d) (hs : d.status ≠ .pending) :
    Tracked (w.park cx home slot id) where
  pending {id' d'} h hs' := by
    have hn : ¬ id = id' := by
      rintro rfl
      cases hd.symm.trans h
      exact hs hs'
    rw [World.park, latest, if_neg hn]
    exact hw.pending h hs'
  complete h hs' := hw.complete h hs'
  unborn {id'} h := by
    rw [World.park, latest, if_neg (ne_of_unborn hd h)]
    exact hw.unborn h

/-- A pending deferred waits for the settlement that was promised last. -/
theorem waitFor (hw : Tracked w) (cx : ContextId) (home : InstallationId) (slot : Nat) {id d}
    (hd : w.deferred? id = some d) :
    Tracked ((w.park cx home slot id).waitFor id d ⟨cx, slot⟩) where
  pending {id' d'} h hs := by
    obtain ⟨rfl, rfl⟩ | ⟨hn, h⟩ := of_modify hd h
    · refine ⟨(hw.pending hd hs).1, ?_⟩
      rw [World.waitFor, World.park, latest, if_pos rfl]
    · rw [World.waitFor, World.park, latest, if_neg hn]
      exact hw.pending h hs
  complete {id' d'} h hs := by
    obtain ⟨rfl, rfl⟩ | ⟨-, h⟩ := of_modify hd h
    · exact hw.complete (d := d) hd hs
    · exact hw.complete h hs
  unborn {id'} h := by
    rw [World.waitFor, World.park, latest, if_neg (ne_of_unborn hd h)]
    exact hw.unborn h

theorem promise (hw : Tracked w) (cx : ContextId) (home : InstallationId) (slot : Nat) {id d}
    (hd : w.deferred? id = some d) : Tracked (w.promise cx home slot id d).1 := by
  obtain ⟨-, h⟩ | ⟨hs, h⟩ := w.promise_posts cx home slot hd
  · exact (hw.waitFor cx home slot hd).posts h
  · exact (hw.park cx home slot hd hs).posts h

theorem newDeferred (hw : Tracked w) : Tracked w.newDeferred where
  pending {id d} h hs := by
    rw [World.deferred?, World.newDeferred, Store.get?_insert] at h
    split at h
    · next hi =>
      cases h
      obtain ⟨ho, hl⟩ := hw.unborn (Nat.le_of_eq hi.symm)
      exact ⟨ho, hl.symm⟩
    · exact hw.pending h hs
  complete {id d} h hs := by
    rw [World.deferred?, World.newDeferred, Store.get?_insert] at h
    split at h
    · cases h
      exact absurd rfl hs
    · exact hw.complete h hs
  unborn h := hw.unborn (Nat.le_of_succ_le h)

end Tracked

theorem Reachable.tracked {w : World} (h : Reachable w) : Tracked w := by
  refine h.rec' (fun plans => ⟨nofun, nofun, fun _ => ⟨rfl, rfl⟩⟩) fun w w' hr hw hm => ?_
  cases hm with
  | quiet h => exact hw.congr h.deferreds (fun _ => by rw [h.history]) fun _ => by rw [h.history]
  | destroy r _ =>
    have hd := w.destroys r
    generalize (w.destroy r).1 = w' at hd ⊢
    cases hd with
    | gone => exact hw
    | channels hc =>
      refine Tracked.prune ?_ _
      exact hw.congr rfl (fun _ => rfl) fun _ => rfl
    | deferred hd ha => exact hw.erase _
    | abandoned hd ha => exact (hw.expire hd).posts (.post ..)
    | _ => exact hw.congr rfl (fun _ => rfl) fun _ => rfl
  | newDeferred => exact hw.newDeferred
  | determine h => exact hw.of_determine h
  | promise hb hd => exact hw.promise _ _ _ hd
  | setSubscriber id place callback hb =>
    unfold World.setSubscriber
    split
    · exact hw
    · refine Tracked.prune ?_ _
      exact hw.congr rfl (fun _ => rfl) fun _ => rfl
    · refine Tracked.prune ?_ _
      exact hw.congr rfl (fun _ => rfl) fun _ => rfl
  | aim => exact hw.posts (.aim ..)
  | arm => exact hw.posts (.arm ..)
  | launch => exact hw.posts (.launch ..)
  | sendTicket => exact hw.posts (.sendTicket ..)
  | newTicket => exact hw.posts (.newTicket ..)
  | take h =>
    obtain ⟨rest, -, rfl⟩ := World.take_cases h
    refine Tracked.begins ?_ (World.begins ..)
    exact hw.congr rfl (fun _ => rfl) fun _ => rfl
  | closeContext cx =>
    exact hw.congr rfl (fun id => skip_dropped (f := outcome? id) (fun _ _ => rfl) ..)
      fun id => skip_dropped (f := latest id) (fun _ _ => rfl) ..
  | _ => exact hw.congr rfl (fun _ => rfl) fun _ => rfl

end Isthmus
