import Isthmus.Proofs.Heap.Reactions

/-!
# Proofs/Heap/Calm — a promise is settled by nothing but settling it

Giving foreign code an object adds objects, handles, classes and promises, and what has no owner left may go
on the way.  An object that stays remains what it is, and nothing happens to a promise (`World.Calm`).

* `Engine.settleFuture_trace` — so a promise that waits for a deferred waits as long as the outcome is
  converted, and gets it then.
* `Engine.deliverNext_trace` — the same for the delivery of a settlement, seen from outside.
-/

namespace Isthmus

open World

/-- Objects may come and go, but none that stays changes its kind, and nothing happens to a promise. -/
structure World.Calm (w w' : World) : Prop where
  next_le : w.objects.next ≤ w'.objects.next
  kind : ∀ id : ObjectId, id.index < w.objects.next → ∀ o', w'.object? id = some o' →
    ∃ o, w.object? id = some o ∧ o'.kind = o.kind
  promises : w'.promises = w.promises

namespace World.Calm

variable {w w' : World} {cx : ContextId}

instance : IsPreorder World Calm where
  refl _ := ⟨Nat.le_refl _, fun _ _ o ho => ⟨o, ho, rfl⟩, rfl⟩
  trans _ _ _ h h' := by
    refine ⟨Nat.le_trans h.next_le h'.next_le, fun id hid o'' ho'' => ?_,
      h'.promises.trans h.promises⟩
    obtain ⟨o', ho', hk'⟩ := h'.kind id (Nat.lt_of_lt_of_le hid h.next_le) o'' ho''
    obtain ⟨o, ho, hk⟩ := h.kind id hid o' ho'
    exact ⟨o, ho, hk'.trans hk⟩

theorem of_eq (ho : w'.objects = w.objects) (hp : w'.promises = w.promises) : w.Calm w' where
  next_le := Nat.le_of_eq (congrArg Store.next ho.symm)
  kind id _ o h := ⟨o, by rwa [World.object?, ho] at h, rfl⟩
  promises := hp

theorem of_holdings (h : w'.holdings = w.holdings) : w.Calm w' := by
  simp only [World.holdings, Prod.mk.injEq] at h
  obtain ⟨ho, -, -, -, hp⟩ := h
  exact of_eq ho hp

theorem addObject (w : World) (o : Object) : w.Calm { w with objects := w.objects.insert o } := by
  refine ⟨Nat.le_succ _, fun id hid o' ho' => ?_, rfl⟩
  rw [World.object?, Store.get?_insert, if_neg (Nat.ne_of_lt hid)] at ho'
  exact ⟨o', ho', rfl⟩

theorem modifyObject {id : ObjectId} {f : Object → Object} (hf : ∀ o, (f o).kind = o.kind) :
    Conserves Calm (Engine.modifyObject id f) := by
  refine .modify fun w => ⟨Nat.le_refl _, fun q _ o' ho' => ?_, rfl⟩
  rw [World.object?, Store.get?_modify] at ho'
  split at ho'
  · obtain ⟨o, ho, rfl⟩ := Option.map_eq_some_iff.1 ho'
    exact ⟨o, by simpa [World.object?, *] using ho, hf o⟩
  · exact ⟨o', ho', rfl⟩

instance : Releases Calm where
  release w fs :=
    have h := Thins.release w fs
    ⟨Nat.le_of_eq h.objects_next.symm, fun id _ o ho => ⟨o, h.objects id.index o ho, rfl⟩, h.promises⟩

instance : NativeSteady Calm where
  aside h _ := of_holdings h.1
  hold _ _ := of_eq rfl rfl
  frame {w _ w₂} h h₂ _ _ := by
    have hopen : w.Calm { w with held := [] :: w.held } := of_eq rfl rfl
    have hend : w.Calm w₂ := trans_of _ (trans_of _ hopen h) (of_holdings h₂)
    exact trans_of _ hend (Releases.release _ _)
  addInstance _ _ := of_eq rfl rfl
  setInstance _ _ := of_eq rfl rfl

theorem wrap {obj data} : Conserves Calm (Engine.wrap cx obj data) :=
  .wrapWith (modifyObject fun _ => rfl)

instance : ObjectSteady Calm where
  addObject w _ _ _ _ _ := addObject w _
  createWithPrototype _ _ :=
    .withPrototype (.update (fun w => addObject w _) fun _ => .bind .hold fun _ => .pure)
  put _ _ _ := modifyObject fun _ => rfl
  wrap _ _ _ := wrap
  attachNew _ _ _ := ⟨_, .of_conserves fun _ _ h => .bind (fun _ => of_eq rfl rfl) fun _ =>
    .attachWith (fun _ _ w => of_holdings (Steady.connect_holdings w).1)
      (fun _ => .modify fun _ => of_eq rfl rfl)
      (.bindHandleWith wrap (.modify fun _ => of_eq rfl rfl)) h⟩
  connect _ _ _ w := of_holdings (Steady.connect_holdings w).1
  setSubscriber w _ _ _ _ _ := of_holdings (Steady.setSubscriber_holdings w ..).1

/-- Converting what native code has settles no promise. -/
theorem toForeign {n : Nat} {registry v} :
    Conserves Calm (Engine.toForeign (Session.runner n) cx registry v) :=
  .toForeign (answersWith (fun _ _ _ => .writeMember) n)

theorem trace (h : w.Calm w') (p : ObjectId) : w'.trace p = w.trace p := by
  rw [World.trace, h.promises, World.trace]

end World.Calm

/-! ## Deliveries -/

namespace Engine

variable {n : Nat} {cx : ContextId} {registry : Registry} {p : ObjectId} {status : DeferredStatus}
  {v : NativeValue} {w w' : World}

/-- **A promise that waits for a deferred** gets its outcome, as it was converted, unless that is broken
off. -/
theorem settleFuture_trace (hp : w.IsPending p)
    (hb : Unbroken ((settleFuture (Session.runner n) cx registry p status v).run w)) :
    ∃ fulfil x turn,
      Settles ((toForeign (Session.runner n) cx registry v).after w) cx registry status v
        (outcome fulfil x) ∧
      w.Went p (.settled fulfil x :: turn)
        ((settleFuture (Session.runner n) cx registry p status v).after w) (outcome fulfil x) := by
  have hcalm : w.Calm ((toForeign (Session.runner n) cx registry v).after w) := World.Calm.toForeign w
  obtain ⟨fulfil, x, hs, hsettle⟩ | ⟨stop, hstop, hbroken⟩ :=
    run_settleFuture n cx registry p status v w
  · generalize (toForeign (Session.runner n) cx registry v).after w = w₁ at hcalm hs hsettle ⊢
    rw [hsettle] at hb
    rw [after, hsettle, ← after]
    cases ho : w₁.object? p with
    | none =>
      rw [run_settle_gone ho] at hb
      exact hb.elim
    | some o =>
      obtain ⟨o₀, waiting, ho₀, hk₀⟩ := hp
      obtain ⟨o₁, ho₁, hk⟩ := hcalm.kind p (Store.lt_next_of_get? ho₀) o ho
      cases ho₀.symm.trans ho₁
      obtain ⟨turn, -, -, hwent⟩ := Unfolds.settle_now (runs n) cx ho (hk.trans hk₀) fulfil x
      exact ⟨fulfil, x, turn, hs, hcalm.trace p ▸ hwent.trace, hwent.state⟩
  · rw [hbroken] at hb
    cases stop with
    | thrown reason => exact absurd rfl (hstop reason)
    | _ => exact hb.elim

/-- A delivery that comes to its end was not broken off, and settles nothing after its work. -/
theorem deliverNext_unfolds {wake rest} (p : ObjectId) (hq : (w.loopOf cx).queue = wake :: rest)
    (hok : (deliverNext (Session.runner n) cx).run w = .ok true w') :
    let start := { w.pop cx wake rest with held := [] :: w.held }
    Unbroken ((runWake (Session.runner n) cx wake).run start) ∧
      Unfolds p ((runWake (Session.runner n) cx wake).after start) w' := by
  intro start
  have hreport : Unfolds p ((runWake (Session.runner n) cx wake).after start)
      ((runDelivery (Session.runner n) cx wake).after start) :=
    after_runDelivery (fun _ => .bind .hold fun _ => .reportException) start
  rw [run_deliverNext hq] at hok
  obtain ⟨u, w₁, hdeliver, hpure⟩ := bind_ok hok
  cases hpure
  cases hm : (runDelivery (Session.runner n) cx wake).run start with
  | error stop w₁ =>
    rw [run_deliver_of_error hm] at hdeliver
    cases hdeliver
  | ok u w₁ =>
    rw [run_deliver_of_ok hm] at hdeliver
    cases hdeliver
    rw [after_of_ok hm] at hreport
    have hfinish : Unfolds p w₁ { w₁.finish cx wake false with held := w₁.held.tail } :=
      Unfolds.of_eq rfl rfl
    have hclose : Unfolds p w₁ (closeFrame.after (w₁.finish cx wake false)) :=
      trans_of _ hfinish (Releases.release _ _)
    exact ⟨unbroken_of_runDelivery (by rw [hm]; trivial), trans_of _ hreport hclose⟩

/-- **The delivery of a settlement** that comes to its end has settled the promise in the slot, whichever
deferred it waits for, with the outcome that the wake carries. -/
theorem deliverNext_trace {id i slot rest} (hb : w.bridge? cx = some (id, i))
    (hq : (w.loopOf cx).queue = .settle slot status v :: rest) (hparked : w.parked? id slot = some p)
    (hp : w.IsPending p) (hok : (deliverNext (Session.runner n) cx).run w = .ok true w') :
    ∃ w₁ fulfil x turn, Settles w₁ cx i.registry status v (outcome fulfil x) ∧
      w.Went p (.settled fulfil x :: turn) w' (outcome fulfil x) := by
  obtain ⟨hunbroken, hlast⟩ := deliverNext_unfolds p hq hok
  generalize hw : w.pop cx (.settle slot status v) rest = wp at hunbroken hlast
  -- the wake takes the promise out of the slot
  have hb' : wp.bridge? cx = some (id, i) :=
    hw ▸ (World.bridge?_congr (World.data?_pop ..) rfl).trans hb
  have hparked' : wp.parked? id slot = some p := hw ▸ hparked
  obtain ⟨held, hunpark⟩ := run_unpark hb' slot ([] :: w.held)
  rw [hparked'] at hunpark
  have hwake : (runWake (Session.runner n) cx (.settle slot status v)).run
      { wp with held := [] :: w.held } =
        (settleFuture (Session.runner n) cx i.registry p status v).run
          { wp.unpark cx id slot with held } := run_bind_of_ok hunpark
  have hpromises : (wp.unpark cx id slot).promises = w.promises := by
    rw [World.unpark, hparked', ← hw]
    rfl
  have hobjects : (wp.unpark cx id slot).objects = w.objects := by
    rw [World.unpark, hparked', ← hw]
    rfl
  generalize hw₀ : ({ wp.unpark cx id slot with held } : World) = w₀ at hwake
  have hp' : w₀.IsPending p := by
    obtain ⟨o, waiting, ho, hk⟩ := hp
    exact ⟨o, waiting, by rwa [← hw₀, World.object?, hobjects], hk⟩
  have htrace : w₀.trace p = w.trace p := by rw [← hw₀, World.trace, hpromises, World.trace]
  rw [hwake] at hunbroken
  rw [after, hwake, ← after] at hlast
  obtain ⟨fulfil, x, turn, hs, hwent⟩ := settleFuture_trace hp' hunbroken
  -- after its work the delivery leaves the promise as it is
  obtain ⟨t, s, hreaches, hlast⟩ := hlast _ hwent.state
  obtain ⟨rfl, -⟩ := hreaches.of_outcome rfl
  have hall := hwent.trans hlast
  exact ⟨_, fulfil, x, turn ++ t, hs, htrace ▸ hall.trace, hall.state⟩

end Engine

end Isthmus
