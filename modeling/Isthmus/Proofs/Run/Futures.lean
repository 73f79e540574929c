import Isthmus.Proofs.Run.Slots

/-!
# Proofs/Run/Futures — promises that were made for deferreds

* `Reachable.promised` — a promise is made for one deferred, and has one slot.
* `Reachable.future` — it is pending until the wake of its slot is delivered, and then shows the outcome
  of its deferred.
* `Moves.settled` — a settled promise never changes.
-/

namespace Isthmus

open History

/-! ## Objects over a run -/

namespace World

variable {w w' : World} {p : ObjectId}

theorem object?_fix (w : World) (p : ObjectId) (state : PromiseState) (q : ObjectId) :
    (w.fix p state).object? q =
      if q = p then (w.object? q).map ({ · with kind := .promise state }) else w.object? q := by
  simp only [object?, fix, Store.get?_modify, ObjectId.index_inj]

end World

/-- What a move can make of the kind of an object. -/
inductive Turns (w w' : World) (p : ObjectId) : ObjectKind → ObjectKind → Prop where
  | same {kind} : Turns w w' p kind kind
  | awaited (r r') : Turns w w' p (.promise (.pending r)) (.promise (.pending r'))
  | settled {r cx slot status v rest id registry state}
      (hd : w.delivering = (cx, .settle slot status v) :: rest)
      (hu : .unparked ⟨cx, slot⟩ p ∈ w.history) (hi : .installed cx id registry ∈ w.history)
      (hs : Settles w cx registry status v state) (hw : w' = w.fix p state) :
      Turns w w' p (.promise (.pending r)) (.promise state)
  | settledOwn {r state} (hf : ¬ w.IsFuture p) :
      Turns w w' p (.promise (.pending r)) (.promise state)

theorem Move.objects_next_le {w w' : World} (hm : Move w w') : w.objects.next ≤ w'.objects.next := by
  cases hm.objects with
  | kept h => exact h.next_le
  | destroyed p hr h => exact Nat.le_of_eq (congrArg Store.next h).symm
  | settled hd hu hp hi hs hw => exact hw ▸ Nat.le_refl _
  | settledOwn state hf hp hw => exact hw ▸ Nat.le_refl _

/-- **An object that is there was there before, unless it is new.** -/
theorem Move.object {w w' : World} (hm : Move w w') {p : ObjectId} (hp : p.index < w.objects.next)
    {o'} (ho : w'.object? p = some o') :
    ∃ o, w.object? p = some o ∧ Turns w w' p o.kind o'.kind := by
  have hfix {q state} (hq : w.IsPending q) (hw : w' = w.fix q state)
      (ht : ∀ r, Turns w w' q (.promise (.pending r)) (.promise state)) :
      ∃ o, w.object? p = some o ∧ Turns w w' p o.kind o'.kind := by
    rw [hw, World.object?_fix] at ho
    split at ho
    · next h =>
      subst h
      obtain ⟨o, r, ho', hk⟩ := hq
      rw [ho'] at ho
      cases ho
      exact ⟨o, ho', hk ▸ ht r⟩
    · exact ⟨o', ho, .same⟩
  cases hm.objects with
  | kept h =>
    obtain ⟨o, ho'⟩ | hn := h.old_or_new _ _ ho
    · obtain ⟨o'', ho'', -, hk⟩ := h.kept _ _ ho'
      obtain rfl : o' = o'' := Option.some.inj (ho.symm.trans ho'')
      refine ⟨o, ho', ?_⟩
      obtain hk | ⟨r, r', hk, hk'⟩ := hk
      · rw [hk]
        exact .same
      · rw [hk, hk']
        exact .awaited r r'
    · exact absurd hp (Nat.not_lt.2 hn)
  | destroyed q hr h =>
    rw [World.object?, h, Store.get?_erase] at ho
    split at ho
    · cases ho
    · exact ⟨o', ho, .same⟩
  | settled hd hu hq hi hs hw =>
    refine hfix hq hw fun r => ?_
    exact .settled hd hu hi hs hw
  | settledOwn state hf hq hw => exact hfix hq hw fun r => .settledOwn hf

/-- A promise is settled. -/
def World.IsSettled (w : World) (p : ObjectId) (state : PromiseState) : Prop :=
  (∃ o, w.object? p = some o ∧ o.kind = .promise state) ∧ ∀ r, state ≠ .pending r

theorem Move.settled {w w' : World} (hm : Move w w') {p state} (hs : w.IsSettled p state) :
    w'.object? p = none ∨ w'.IsSettled p state := by
  obtain ⟨⟨o, ho, hk⟩, hn⟩ := hs
  cases ho' : w'.object? p with
  | none => exact .inl rfl
  | some o' =>
    obtain ⟨o'', h, ht⟩ := hm.object (Store.lt_next_of_get? ho) ho'
    obtain rfl : o = o'' := Option.some.inj (ho.symm.trans h)
    refine .inr ⟨⟨o', ho', ?_⟩, hn⟩
    generalize o.kind = kind at hk ht
    generalize o'.kind = kind' at ht ⊢
    cases ht with
    | same => exact hk
    | _ =>
      cases hk
      exact absurd rfl (hn _)

/-- An object that is gone does not come back. -/
theorem Move.gone {w w' : World} (hm : Move w w') {p : ObjectId} (hp : p.index < w.objects.next)
    (ho : w.object? p = none) : w'.object? p = none := by
  cases ho' : w'.object? p with
  | none => rfl
  | some o' =>
    obtain ⟨o, h, -⟩ := hm.object hp ho'
    cases ho.symm.trans h

/-- **A settled promise never changes**, as long as it is there. -/
theorem Moves.settled {w w' : World} (hm : Moves w w') {p state} (hs : w.IsSettled p state) :
    w'.object? p = none ∨ w'.IsSettled p state := by
  have hp : p.index < w.objects.next := by
    obtain ⟨⟨o, ho, -⟩, -⟩ := hs
    exact Store.lt_next_of_get? ho
  refine And.right (a := p.index < w'.objects.next) ?_
  induction hm with
  | refl => exact ⟨hp, .inr hs⟩
  | tail _ hm ih =>
    obtain ⟨hp, hn | hs⟩ := ih
    · exact ⟨Nat.lt_of_lt_of_le hp hm.objects_next_le, .inl (hm.gone hp hn)⟩
    · exact ⟨Nat.lt_of_lt_of_le hp hm.objects_next_le, hm.settled hs⟩

/-- A promise that is not pending does not become so. -/
theorem Move.not_pending {w w' : World} (hm : Move w w') {p : ObjectId}
    (hp : p.index < w.objects.next) (hn : ¬ w.IsPending p) : ¬ w'.IsPending p := by
  rintro ⟨o', r', ho', hk'⟩
  obtain ⟨o, ho, ht⟩ := hm.object hp ho'
  generalize hk : o.kind = kind at ht
  generalize o'.kind = kind' at ht hk'
  cases ht with
  | same => exact hn ⟨o, r', ho, hk.trans hk'⟩
  | _ => exact hn ⟨o, _, ho, hk⟩

theorem Moves.not_pending {w w' : World} (hm : Moves w w') {p : ObjectId}
    (hp : p.index < w.objects.next) (hn : ¬ w.IsPending p) : ¬ w'.IsPending p := by
  refine And.right (a := p.index < w'.objects.next) ?_
  induction hm with
  | refl => exact ⟨hp, hn⟩
  | tail _ hm ih =>
    exact ⟨Nat.lt_of_lt_of_le ih.1 hm.objects_next_le, hm.not_pending ih.1 ih.2⟩

/-! ## Identities of promises -/

namespace World

variable {w w' : World}

theorem Posts.resolvers (h : Posts w w') : w'.roots.resolvers = w.roots.resolvers := by
  cases h with
  | _ => rfl

theorem Begins.resolvers {cx wake} (h : Begins w cx wake w') :
    w'.roots.resolvers = w.roots.resolvers := by
  cases h with
  | _ => rfl

end World

theorem Move.resolvers {w w' : World} (hm : Move w w') {e} (he : e ∈ w'.roots.resolvers) :
    e ∈ w.roots.resolvers ∨
      e.2.index < w'.objects.next ∧ ¬ w.IsFuture e.2 ∧ w'.history = w.history := by
  cases hm with
  | quiet h =>
    obtain he | ⟨hl, hf⟩ := h.resolvers e he
    · exact .inl he
    · exact .inr ⟨hl, hf, h.history⟩
  | destroy r h =>
    have hd := w.destroys r
    generalize (w.destroy r).1 = w' at hd he
    cases hd with
    | channels hc =>
      rw [World.prune_roots] at he
      exact .inl he
    | abandoned hd ha =>
      rw [(World.Posts.post (w.expire _) _ _).resolvers] at he
      exact .inl he
    | _ => exact .inl he
  | determine h =>
    obtain ⟨d, -, -, -, hp⟩ := World.determine_posts h
    rw [hp.resolvers] at he
    exact .inl he
  | promise hb hd =>
    obtain ⟨-, hp⟩ | ⟨-, hp⟩ := w.promise_posts _ _ _ hd
    · rw [hp.resolvers] at he
      exact .inl he
    · rw [hp.resolvers] at he
      exact .inl he
  | setSubscriber id place callback hb =>
    unfold World.setSubscriber at he
    split at he
    · exact .inl he
    · rw [World.prune_roots] at he
      exact .inl he
    · rw [World.prune_roots] at he
      exact .inl he
  | aim args h =>
    rw [(World.Posts.aim w ..).resolvers] at he
    exact .inl he
  | arm h =>
    rw [(World.Posts.arm w ..).resolvers] at he
    exact .inl he
  | launch h =>
    rw [(World.Posts.launch w ..).resolvers] at he
    exact .inl he
  | take h =>
    obtain ⟨rest, -, rfl⟩ := World.take_cases h
    rw [(World.begins (w.pop _ _ rest) _ _).resolvers] at he
    exact .inl he
  | newTicket name h =>
    rw [(World.Posts.newTicket w name _).resolvers] at he
    exact .inl he
  | sendTicket h label body =>
    rw [(World.Posts.sendTicket w _ _ label body).resolvers] at he
    exact .inl he
  | _ => exact .inl he

/-- A promise is made once, for one deferred and one slot. -/
structure Promised (w : World) : Prop where
  lt : ∀ {k p d}, .promised k p d ∈ w.history → p.index < w.objects.next
  unique : ∀ {k k' p d d'}, .promised k p d ∈ w.history → .promised k' p d' ∈ w.history →
    k = k' ∧ d = d'
  unparked : ∀ {k p}, .unparked k p ∈ w.history → ∃ d, .promised k p d ∈ w.history
  slot : ∀ {k p p' d d'}, bindings k.context w.history = 1 → .promised k p d ∈ w.history →
    .promised k p' d' ∈ w.history → p = p' ∧ d = d'
  /-- Scripts name no promise that was made for a deferred. -/
  named : ∀ e ∈ w.roots.resolvers, e.2.index < w.objects.next ∧ ¬ w.IsFuture e.2

/-- A new promise is a new object, and pending. -/
theorem Arises.new_promise {w w' : World} {k p d} (h : Arises w w' (.promised k p d)) :
    p = ⟨w.objects.next⟩ ∧
      w'.object? p = some { context := k.context, kind := .promise (.pending []) } := by
  cases h with
  | promised hb hd hw' _ =>
    rw [World.object?, hw', w.promise_objects _ _ _ hd, Store.get?_insert, if_pos rfl]
    exact ⟨rfl, rfl⟩

namespace Promised

variable {w w' : World}

/-- An occurrence of an unparking names a promise of the installation. -/
theorem of_arises_unparked (hb : Bridged w) (hs : Slotted w) {k p}
    (h : Arises w w' (.unparked k p)) : ∃ d, .promised k p d ∈ w.history := by
  cases h with
  | @unparked cx slot status v rest home i promise hq hbr hp hw =>
    obtain ⟨hd, hi⟩ := World.bridge?_eq_some.1 hbr
    obtain ⟨e, he, rfl, rfl⟩ := World.mem_of_parked? hi hp
    obtain ⟨cx', registry, d, hinst, hprom⟩ := hs.resolver hi he
    obtain ⟨i', -, hinst'⟩ := hb.installed hd
    obtain rfl := hb.once hinst hinst'
    exact ⟨d, hprom⟩

/-- Two promises that are not both old are the same. -/
theorem eq_of_arises {k k' p p' d d'} (hn : Arises w w' (.promised k p d))
    (h : .promised k' p' d' ∈ w'.history)
    (ho : .promised k' p' d' ∉ w.history) : k' = k ∧ p' = p ∧ d' = d := by
  cases hn with
  | promised hb hd hw' hf => exact (hf _ _ _ h).resolve_left ho

theorem move (hw : Promised w) (hr : Reachable w) (hm : Move w w') : Promised w' := by
  have hold {k : Settlement} {p : ObjectId} {d} (h : .promised k p d ∈ w.history) :
      p ≠ ⟨w.objects.next⟩ := by
    rintro rfl
    exact Nat.lt_irrefl _ (hw.lt h)
  have hlt {k} {p : ObjectId} {d} (h : .promised k p d ∈ w'.history) : p.index < w'.objects.next := by
    obtain h | h := hm.arises h
    · exact Nat.lt_of_lt_of_le (hw.lt h) hm.objects_next_le
    · exact Store.lt_next_of_get? h.new_promise.2
  constructor
  case lt => exact hlt
  case unique =>
    intro k k' p d d' h h'
    obtain ho | hn := hm.arises h
    · obtain ho' | hn' := hm.arises h'
      · exact hw.unique ho ho'
      · exact absurd hn'.new_promise.1 (hold ho)
    · obtain ⟨hk, -, hd⟩ := eq_of_arises hn h' fun ho' => hold ho' hn.new_promise.1
      exact ⟨hk.symm, hd.symm⟩
  case unparked =>
    intro k p h
    obtain h | h := hm.arises h
    · obtain ⟨d, h⟩ := hw.unparked h
      exact ⟨d, hm.history.subset h⟩
    · obtain ⟨d, h⟩ := of_arises_unparked hr.bridged hr.slotted h
      exact ⟨d, hm.history.subset h⟩
  case slot =>
    intro k p p' d d' h1 h h'
    have hb {p d} (h : .promised k p d ∈ w.history) : bindings k.context w.history = 1 :=
      hm.bindings_eq_one (hr.slotted.promised_bound h) h1
    -- a new promise takes the next slot, which is above those of the old ones
    have habove {p p' d d'} (hn : Arises w w' (.promised k p d)) :
        .promised k p' d' ∉ w.history := fun ho => by
      have h1 := hb ho
      cases hn with
      | promised hbr hd hw' hf =>
        obtain ⟨hdata, hi⟩ := World.bridge?_eq_some.1 hbr
        obtain ⟨i', -, hinst⟩ := hr.bridged.installed hdata
        exact Nat.lt_irrefl _ (hr.slotted.promised_lt hinst h1 hi ho)
    obtain ho | hn := hm.arises h
    · obtain ho' | hn' := hm.arises h'
      · exact hw.slot (hb ho) ho ho'
      · exact absurd ho (habove hn')
    · obtain ⟨-, hp, hd⟩ := eq_of_arises hn h' (habove hn)
      exact ⟨hp.symm, hd.symm⟩
  case named =>
    intro e he
    obtain he | ⟨hl, hn, hh⟩ := hm.resolvers he
    · obtain ⟨hl, hn⟩ := hw.named e he
      refine ⟨Nat.lt_of_lt_of_le hl hm.objects_next_le, fun ⟨k, d, h⟩ => ?_⟩
      obtain h | h := hm.arises h
      · exact hn ⟨k, d, h⟩
      · have := congrArg ObjectId.index h.new_promise.1
        exact Nat.ne_of_lt hl this
    · refine ⟨hl, fun ⟨k, d, h⟩ => hn ⟨k, d, ?_⟩⟩
      rwa [hh] at h

end Promised

/-- **Promises are made once.** -/
theorem Reachable.promised {w : World} (h : Reachable w) : Promised w :=
  h.rec' (fun _ => ⟨nofun, nofun, nofun, nofun, nofun⟩) fun _ _ hr hw hm => hw.move hr hm

/-! ## Outcomes and wakes -/

namespace History

/-- The settlement that was promised last was promised. -/
theorem mem_of_latest {d : DeferredId} {k : Settlement} {h : List Occurrence}
    (hl : latest d h = some k) : ∃ p, .promised k p d ∈ h := by
  induction h with
  | nil => cases hl
  | cons o h ih =>
    have hskip (hl : latest d h = some k) : ∃ p, .promised k p d ∈ o :: h := by
      obtain ⟨p, hp⟩ := ih hl
      exact ⟨p, List.mem_cons_of_mem _ hp⟩
    cases o with
    | promised k' p d' =>
      rw [latest] at hl
      split at hl
      · next hd =>
        subst hd
        cases hl
        exact ⟨p, List.mem_cons_self ..⟩
      · exact hskip hl
    | _ => exact hskip hl

end History

/-- Only a deferred without an outcome gets one. -/
theorem Decides.undecided {w w' : World} (ht : Tracked w) {id status v}
    (h : Decides w w' id status v) : outcome? id w.history = none := by
  cases h with
  | completed h =>
    obtain ⟨d, hd, hp, -⟩ := World.determine_cases h
    exact (ht.pending hd hp).1
  | dropped hr hd hk => exact (ht.pending hd (Deferred.pending_of_abandoned hk)).1

/-- **The first completion counts**: a deferred keeps its outcome. -/
theorem Moves.outcome {w w' : World} (hr : Reachable w) (hm : Moves w w') {d o}
    (ho : outcome? d w.history = some o) : outcome? d w'.history = some o := by
  induction hm with
  | refl => exact ho
  | tail hm hstep ih =>
    obtain h | ⟨id, status, v, hd, h⟩ := hstep.outcome
    · rw [h, ih]
    · have hn := hd.undecided (hr.moves hm).tracked
      rw [h, if_neg]
      · exact ih
      · rintro rfl
        cases hn.symm.trans ih

/-- What an errand settles was promised for a deferred that has its outcome. -/
theorem Reachable.settle_armed {w : World} (h : Reachable w) {cx slot status v}
    (he : .armed cx (.settle slot status v) ∈ w.errands) :
    ∃ p d, .promised ⟨cx, slot⟩ p d ∈ w.history ∧ outcome? d w.history = some (status, v) := by
  refine h.rec' (P := fun w => .armed cx (.settle slot status v) ∈ w.errands → ∃ p d,
    .promised ⟨cx, slot⟩ p d ∈ w.history ∧ outcome? d w.history = some (status, v)) nofun
    (fun w w' hr ih hm he => ?_) he
  obtain he | hn := hm.errand he
  · obtain ⟨p, d, hp, ho⟩ := ih he
    exact ⟨p, d, hm.history.subset hp, Moves.outcome hr (.single hm) ho⟩
  · cases hn with
    | @determined id d k _ _ h hd hk =>
      obtain ⟨d', hd', hs, -, rfl⟩ := World.determine_cases h
      cases hd.symm.trans hd'
      rw [(hr.tracked.pending hd hs).2] at hk
      obtain ⟨p, hp⟩ := mem_of_latest hk
      exact ⟨p, id, hm.history.subset hp, if_pos rfl⟩

/-- **A wake carries the outcome of the deferred that its promise was made for.** -/
theorem Reachable.settle_sent {w : World} (h : Reachable w) {cx slot status v}
    (hs : .sent cx (.settle slot status v) ∈ w.history) :
    ∃ p d, .promised ⟨cx, slot⟩ p d ∈ w.history ∧ outcome? d w.history = some (status, v) := by
  refine h.rec' (P := fun w => .sent cx (.settle slot status v) ∈ w.history → ∃ p d,
    .promised ⟨cx, slot⟩ p d ∈ w.history ∧ outcome? d w.history = some (status, v)) nofun
    (fun w w' hr ih hm hs => ?_) hs
  obtain hs | hs := hm.arises hs
  · obtain ⟨p, d, hp, ho⟩ := ih hs
    exact ⟨p, d, hm.history.subset hp, Moves.outcome hr (.single hm) ho⟩
  · cases hs with
    | @settling id d k _ _ hd hk ho =>
      have hp := Deferred.pending_of_abandoned hk
      rw [Deferred.abandoned_of_pending hp, (hr.tracked.pending hd hp).2] at hk
      obtain ⟨p, hp⟩ := mem_of_latest hk
      exact ⟨p, id, hm.history.subset hp, ho⟩
    | launched he hw =>
      obtain ⟨p, d, hp, ho⟩ := hr.settle_armed (he ▸ List.mem_append_right _ (List.mem_cons_self ..))
      exact ⟨p, d, hm.history.subset hp, Moves.outcome hr (.single hm) ho⟩
    | ready hp hd hn ho => exact ⟨_, _, hp, ho.trans (hr.tracked.complete hd hn)⟩

/-! ## What a promise shows -/

/-- The promise was settled by the delivery of the wake of its slot, and shows the outcome of its
deferred, as it was converted at that moment of the run. -/
inductive Shows (w : World) (k : Settlement) (p : ObjectId) (d : DeferredId) (state : PromiseState) :
    Prop where
  | intro {status v id registry w₁} (ho : outcome? d w.history = some (status, v))
      (hu : .unparked k p ∈ w.history) (ht : .taken k.context (.settle k.slot status v) ∈ w.history)
      (hi : .installed k.context id registry ∈ w.history) (hm : Moves w₁ w)
      (hs : Settles w₁ k.context registry status v state)

theorem Shows.moves {w w' : World} (hr : Reachable w) (hm : Moves w w') {k p d state}
    (h : Shows w k p d state) : Shows w' k p d state := by
  obtain ⟨ho, hu, ht, hi, hm', hs⟩ := h
  have hsub := hm.history.subset
  exact ⟨hm.outcome hr ho, hsub hu, hsub ht, hsub hi, hm'.trans hm, hs⟩

/-- The delivery that settles a promise is that of the outcome of its deferred. -/
theorem Reachable.shows {w : World} (h : Reachable w) {cx slot status v rest p d id registry state}
    (h1 : bindings cx w.history = 1) (hp : .promised ⟨cx, slot⟩ p d ∈ w.history)
    (hd : w.delivering = (cx, .settle slot status v) :: rest)
    (hu : .unparked ⟨cx, slot⟩ p ∈ w.history) (hi : .installed cx id registry ∈ w.history)
    (hs : Settles w cx registry status v state) : Shows w ⟨cx, slot⟩ p d state := by
  have ht : .taken cx (.settle slot status v) ∈ w.history := by
    refine mem_taken.1 (h.traced.delivering (cx, .settle slot status v) ?_)
    rw [hd]
    exact List.mem_cons_self ..
  obtain ⟨p', d', hp', ho⟩ := h.settle_sent (mem_sent.1 (h.traced.taken cx _ (mem_taken.2 ht)))
  obtain ⟨rfl, rfl⟩ := h.promised.slot h1 hp hp'
  exact ⟨ho, hu, ht, hi, .refl, hs⟩

/-- **A promise that was made for a deferred is pending, or shows its outcome.** -/
theorem Reachable.future {w : World} (h : Reachable w) {k p d o}
    (h1 : bindings k.context w.history = 1) (hp : .promised k p d ∈ w.history)
    (ho : w.object? p = some o) : (∃ r, o.kind = .promise (.pending r)) ∨
      ∃ state, o.kind = .promise state ∧ Shows w k p d state := by
  refine h.rec' (P := fun w => ∀ o, bindings k.context w.history = 1 → .promised k p d ∈ w.history →
    w.object? p = some o → (∃ r, o.kind = .promise (.pending r)) ∨
      ∃ state, o.kind = .promise state ∧ Shows w k p d state)
    (fun plans => nofun) (fun w w' hr ih hm o h1 hp ho => ?_) o h1 hp ho
  obtain hp | hn := hm.arises hp
  · have hb := hm.bindings_eq_one (hr.slotted.promised_bound hp) h1
    obtain ⟨o₀, ho₀, ht⟩ := hm.object (hr.promised.lt hp) ho
    have hkeep {state} (h : Shows w k p d state) : Shows w' k p d state := h.moves hr (.single hm)
    have ih := ih o₀ hb hp ho₀
    generalize o₀.kind = kind₀ at ht ih
    generalize o.kind = kind at ht ⊢
    cases ht with
    | same =>
      obtain hpend | ⟨state, hk, hs⟩ := ih
      · exact .inl hpend
      · exact .inr ⟨state, hk, hkeep hs⟩
    | awaited r r' => exact .inl ⟨r', rfl⟩
    | settled hd hu hi hs _ =>
      obtain ⟨d', hp'⟩ := hr.promised.unparked hu
      obtain ⟨rfl, rfl⟩ := hr.promised.unique hp hp'
      exact .inr ⟨_, rfl, hkeep (hr.shows hb hp hd hu hi hs)⟩
    | settledOwn hf => exact absurd ⟨k, d, hp⟩ hf
  · cases hn.new_promise.2.symm.trans ho
    exact .inl ⟨[], rfl⟩

/-! ## Parked promises -/

/-- A promise is parked until it is taken out of its slot. -/
structure Parked (w : World) : Prop where
  isSome : ∀ {id i e}, w.installation? id = some i → e ∈ i.resolvers → (w.object? e.2).isSome
  parked : ∀ {cx id registry i slot p d}, .installed cx id registry ∈ w.history →
    bindings cx w.history = 1 → w.installation? id = some i →
    .promised ⟨cx, slot⟩ p d ∈ w.history →
    (slot, p) ∈ i.resolvers ∨ .unparked ⟨cx, slot⟩ p ∈ w.history
  waits : ∀ {cx id registry i e p}, .installed cx id registry ∈ w.history →
    bindings cx w.history = 1 → w.installation? id = some i → e ∈ i.resolvers →
    .unparked ⟨cx, e.1⟩ p ∉ w.history

/-- An object that is referred to stays. -/
theorem Move.isSome_object {w w' : World} (hm : Move w w') {p : ObjectId}
    (hr : .object p ∈ w.references) (ho : (w.object? p).isSome) : (w'.object? p).isSome := by
  obtain ⟨o, ho⟩ := Option.isSome_iff_exists.1 ho
  have hfix (q : ObjectId) (state : PromiseState) : ((w.fix q state).object? p).isSome := by
    rw [World.object?_fix, ho]
    split
    · rfl
    · rfl
  cases hm.objects with
  | kept h =>
    obtain ⟨o', ho', -⟩ := h.kept _ _ ho
    rw [World.object?, ho']
    rfl
  | destroyed q hq h =>
    have hn : p ≠ q := by
      rintro rfl
      exact hq hr
    rw [World.object?, h, Store.get?_erase, if_neg fun h => hn (ObjectId.index_inj.1 h),
      show w.objects.get? p.index = some o from ho]
    rfl
  | settled hd hu hp hi hs hw => exact hw ▸ hfix _ _
  | settledOwn state hf hp hw => exact hw ▸ hfix _ _

namespace Parked

variable {w w' : World}

theorem install (hw : Parked w) (hr : Reachable w) {cx : ContextId}
    (hc : (w.context? cx).isSome) (registry : Registry) : Parked (w.install cx registry) := by
  have hm : Move w (w.install cx registry) := .install registry hc
  have hold {id i} (h : (w.install cx registry).installation? id = some i) :
      w.installation? id = some i ∨ i.resolvers = [] := by
    rw [World.installation?, World.install, Store.get?_insert] at h
    split at h
    · cases h
      exact .inr rfl
    · exact .inl h
  have hmem {o} (ho : o ∈ (w.install cx registry).history)
      (hne : o ≠ .installed cx ⟨w.installations.next⟩ registry) : o ∈ w.history :=
    (List.mem_cons.1 ho).resolve_left hne
  constructor
  case isSome =>
    intro id i e hi he
    obtain hi | hi := hold hi
    · exact hw.isSome hi he
    · rw [hi] at he
      cases he
  case parked =>
    intro c id r i slot p d hc' h1 hi h
    have hpos := hr.slotted.promised_bound (hmem h (by simp))
    have hone := hm.bindings_eq_one hpos h1
    obtain he | hc' := List.mem_cons.1 hc'
    · cases he
      rw [w.bindings_install, if_pos rfl] at h1
      dsimp only at hpos
      omega
    · have hn : id.index ≠ w.installations.next := Nat.ne_of_lt (hr.bridged.fresh hc')
      rw [World.installation?, World.install, Store.get?_insert, if_neg hn] at hi
      exact (hw.parked hc' hone hi (hmem h (by simp))).imp_right (List.mem_cons_of_mem _)
  case waits =>
    intro c id r i e p hc' h1 hi he h
    obtain hi | hi := hold hi
    · obtain he' | hc' := List.mem_cons.1 hc'
      · cases he'
        exact Nat.lt_irrefl _ (Store.lt_next_of_get? hi)
      · exact hw.waits hc' (hm.bindings_eq_one (bindings_pos hc') h1) hi he (hmem h (by simp))
    · rw [hi] at he
      cases he

theorem move (hw : Parked w) (hr : Reachable w) (hm : Move w w')
    (hn : World.InstallsNothing w w') : Parked w' := by
  constructor
  case isSome =>
    intro id i' e hi' he
    obtain ⟨i, hi, ha⟩ := hm.installation_old hn hi'
    have hkeep (he : e ∈ i.resolvers) : (w'.object? e.2).isSome :=
      hm.isSome_object (World.mem_references_of_resolver hi he) (hw.isSome hi he)
    cases ha with
    | parked hb h =>
      obtain he | he := List.mem_append.1 he
      · exact hkeep he
      · rw [List.mem_singleton.1 he]
        obtain h | h := hm.arises h
        · exact absurd (hr.promised.lt h) (Nat.lt_irrefl _)
        · rw [h.new_promise.2]
          rfl
    | unparked hb hp h => exact hkeep (List.mem_filter.1 he).1
    | _ => exact hkeep he
  case parked =>
    intro cx id registry i' slot p d hc h1 hi' hp
    obtain ⟨i, hi, ha⟩ := hm.installation_old hn hi'
    have hc := hm.installed_old hn hc
    have hone := hm.bindings_eq_one (bindings_pos hc) h1
    obtain hp | hnew := hm.arises hp
    · have hkeep : (slot, p) ∈ i.resolvers ∨ .unparked ⟨cx, slot⟩ p ∈ w'.history :=
        (hw.parked hc hone hi hp).imp_right (hm.history.subset ·)
      cases ha with
      | parked hb h => exact hkeep.imp_left (List.mem_append_left _)
      | @unparked c s p' hb hp' h =>
        obtain rfl := hr.bridged.owner_eq hb hc
        obtain hm' | hu := hkeep
        · by_cases hs : slot = s
          · subst hs
            obtain ⟨e, he, hes, rfl⟩ := World.mem_of_parked? hi hp'
            have := List.inj_on_of_nodup_map (hr.slotted.resolver_nodup hi) he hm' hes
            subst this
            exact .inr h
          · exact .inl (List.mem_filter.2 ⟨hm', decide_eq_true hs⟩)
        · exact .inr hu
      | _ => exact hkeep
    · cases hnew with
      | promised hb hd hw' _ =>
        obtain rfl := hr.bridged.home_eq hb hc hone
        rw [hw', World.installation?_promise hb hd] at hi'
        cases hi'
        exact .inl (List.mem_append_right _ (List.mem_singleton_self _))
  case waits =>
    intro cx id registry i' e p hc h1 hi' he h
    obtain ⟨i, hi, ha⟩ := hm.installation_old hn hi'
    have hc := hm.installed_old hn hc
    have hone := hm.bindings_eq_one (bindings_pos hc) h1
    obtain h | h := hm.arises h
    · have hkeep (he : e ∈ i.resolvers) : False := hw.waits hc hone hi he h
      cases ha with
      | parked hb hp =>
        obtain he | he := List.mem_append.1 he
        · exact hkeep he
        · rw [List.mem_singleton.1 he] at h
          obtain ⟨d, h⟩ := hr.promised.unparked h
          exact Nat.lt_irrefl _ (hr.slotted.promised_lt hc hone hi h)
      | unparked hb hp h => exact hkeep (List.mem_filter.1 he).1
      | _ => exact hkeep he
    · cases h with
      | unparked hq hb hp hw' =>
        obtain rfl := hr.bridged.home_eq hb hc hone
        rw [hw', World.installation?_begin hb hp] at hi'
        cases hi'
        exact of_decide_eq_true (List.mem_filter.1 he).2 rfl

end Parked

/-- **A promise is parked until the wake of its slot is delivered.** -/
theorem Reachable.parked {w : World} (h : Reachable w) : Parked w := by
  refine h.rec' (fun plans => ⟨nofun, nofun, nofun⟩) fun w w' hr hw hm => ?_
  obtain hn | ⟨cx, registry, hc, rfl⟩ := hm.installs
  · exact hw.move hr hm hn
  · exact hw.install hr hc registry

/-! ## Deliveries of settlements -/

/-- A promise that was taken out of its slot is being settled, or the delivery has ended. -/
theorem Reachable.unparked {w : World} (h : Reachable w) {cx slot p}
    (hu : .unparked ⟨cx, slot⟩ p ∈ w.history) :
    (∃ status v, (cx, .settle slot status v) ∈ w.delivering) ∨
      ∃ status v broke, .ended cx (.settle slot status v) broke ∈ w.history := by
  refine h.rec' (P := fun w => .unparked ⟨cx, slot⟩ p ∈ w.history →
    (∃ status v, (cx, .settle slot status v) ∈ w.delivering) ∨
      ∃ status v broke, .ended cx (.settle slot status v) broke ∈ w.history) nofun
    (fun w w' hr ih hm hu => ?_) hu
  obtain hu | hn := hm.arises hu
  · obtain ⟨status, v, hd⟩ | ⟨status, v, broke, ho⟩ := ih hu
    · cases hm.delivers with
      | same h => exact .inl ⟨status, v, h ▸ hd⟩
      | began hq h => exact .inl ⟨status, v, h ▸ List.mem_cons_of_mem _ hd⟩
      | ended hd' h ho =>
        rw [hd'] at hd
        obtain he | hd := List.mem_cons.1 hd
        · cases he
          exact .inr ⟨status, v, _, ho⟩
        · exact .inl ⟨status, v, h ▸ hd⟩
    · exact .inr ⟨status, v, broke, hm.history.subset ho⟩
  · cases hn with
    | @unparked cx slot status v rest _ _ promise hq hb hp hw' =>
      refine .inl ⟨status, v, ?_⟩
      rw [hw', (Aside.begins (World.begins (w.pop cx _ rest) _ _)).delivering]
      exact List.mem_cons_self ..

/-- A promise is taken out of its slot by the delivery of a wake. -/
theorem Reachable.unparked_taken {w : World} (h : Reachable w) {k p}
    (hu : .unparked k p ∈ w.history) :
    ∃ status v, .taken k.context (.settle k.slot status v) ∈ w.history := by
  refine h.rec' (P := fun w => .unparked k p ∈ w.history →
    ∃ status v, .taken k.context (.settle k.slot status v) ∈ w.history) nofun
    (fun w w' hr ih hm hu => ?_) hu
  obtain hu | hn := hm.arises hu
  · obtain ⟨status, v, ht⟩ := ih hu
    exact ⟨status, v, hm.history.subset ht⟩
  · cases hn with
    | @unparked cx slot status v rest _ _ promise hq hb hp hw' =>
      refine ⟨status, v, ?_⟩
      rw [hw']
      exact (World.begins (w.pop cx _ rest) _ _).history.subset (List.mem_cons_self ..)

/-- **A delivery that is not broken off settles the promise.** -/
theorem Reachable.ended {w : World} (h : Reachable w) {cx slot status v}
    (he : .ended cx (.settle slot status v) false ∈ w.history) :
    ∃ p, .unparked ⟨cx, slot⟩ p ∈ w.history ∧ ¬ w.IsPending p := by
  refine h.rec' (P := fun w => .ended cx (.settle slot status v) false ∈ w.history →
    ∃ p, .unparked ⟨cx, slot⟩ p ∈ w.history ∧ ¬ w.IsPending p) nofun
    (fun w w' hr ih hm he => ?_) he
  have hkeep (h : ∃ p, .unparked ⟨cx, slot⟩ p ∈ w.history ∧ ¬ w.IsPending p) :
      ∃ p, .unparked ⟨cx, slot⟩ p ∈ w'.history ∧ ¬ w'.IsPending p := by
    obtain ⟨p, hu, hp⟩ := h
    obtain ⟨d, hd⟩ := hr.promised.unparked hu
    exact ⟨p, hm.history.subset hu, hm.not_pending (hr.promised.lt hd) hp⟩
  obtain he | hn := hm.arises he
  · exact hkeep (ih he)
  · cases hn with
    | ended hd hu hs hw' => exact hkeep (hs rfl slot status v rfl)

end Isthmus
