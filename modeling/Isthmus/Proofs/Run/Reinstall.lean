import Isthmus.Proofs.Heap.Calm
import Isthmus.Proofs.Run.Settlement
import Isthmus.Proofs.Run.Subscriptions

/-!
# Proofs/Run/Reinstall — installing the bridge over work in flight

A settlement carries the number of a slot, and an installation numbers its slots from one.  A settlement
that was promised under an earlier installation therefore looks for its slot in the one that is there when
it is delivered, and so does an event.

* `Reachable.filed` — what is in a slot was put there after the bridge was installed, and what is parked
  still waits.
* `Reachable.foundByNumber` — so a delivery aborts, or settles and calls what a later installation made,
  whatever its wake was sent for.
* `settled_by_earlier` — a promise is settled by the settlement of another deferred.
-/

namespace Isthmus

open History

/-! ## What came after what -/

/-- One occurrence came after another. -/
def History.After (newer older : Occurrence) (h : List Occurrence) : Prop :=
  [newer, older].Sublist h

namespace History.After

variable {newer older : Occurrence} {h h' : List Occurrence}

theorem mono (ha : After newer older h) (hs : h <:+ h') : After newer older h' :=
  List.Sublist.trans ha hs.sublist

/-- What is new came after what was there. -/
theorem of_new (hs : h <:+ h') (hn : newer ∈ h') (ho : newer ∉ h) (hm : older ∈ h) :
    After newer older h' := by
  obtain ⟨more, rfl⟩ := hs
  have hn := (List.mem_append.1 hn).resolve_right ho
  exact List.Sublist.append (List.singleton_sublist.2 hn) (List.singleton_sublist.2 hm)

theorem mem_newer (ha : After newer older h) : newer ∈ h :=
  List.Sublist.subset ha (List.mem_cons_self ..)

theorem mem_older (ha : After newer older h) : older ∈ h :=
  List.Sublist.subset ha (List.mem_cons_of_mem _ (List.mem_singleton_self _))

end History.After

/-! ## What is in a slot -/

/-- A promise that is parked was parked before, or is the new one. -/
theorem Move.resolver {w w' : World} (hm : Move w w') {id i' e} (hi' : w'.installation? id = some i')
    (he : e ∈ i'.resolvers) : ∃ i, w.installation? id = some i ∧ i'.registry = i.registry ∧
      (e ∈ i.resolvers ∨ e = (i.nextSlot, ⟨w.objects.next⟩) ∧ ∃ cx d,
        w.bridge? cx = some (id, i) ∧ .promised ⟨cx, i.nextSlot⟩ ⟨w.objects.next⟩ d ∈ w'.history) := by
  obtain hn | ⟨cx, registry, hc, rfl⟩ := hm.installs
  · obtain ⟨i, hi, ha⟩ := hm.installation_old hn hi'
    refine ⟨i, hi, ha.registry_eq, ?_⟩
    cases ha with
    | @parked cx d hb h =>
      obtain he | he := List.mem_append.1 he
      · exact .inl he
      · exact .inr ⟨List.mem_singleton.1 he, cx, d, hb, h⟩
    | unparked hb hp h => exact .inl (List.mem_filter.1 he).1
    | _ => exact .inl he
  · rw [World.installation?, World.install, Store.get?_insert] at hi'
    split at hi'
    · cases hi'
      cases he
    · exact ⟨i', hi', rfl, .inl he⟩

/-- A callback that is kept was kept before, or is subscribed now. -/
theorem Move.subscription {w w' : World} (hm : Move w w') {id i' e}
    (hi' : w'.installation? id = some i') (he : e ∈ i'.subscriptions) :
    ∃ i, w.installation? id = some i ∧ i'.registry = i.registry ∧
      (e ∈ i.subscriptions ∨ e.1 = i.nextSlot ∧ .subscribed ⟨id, e.1⟩ e.2 ∈ w'.history) := by
  obtain hn | ⟨cx, registry, hc, rfl⟩ := hm.installs
  · obtain ⟨i, hi, ha⟩ := hm.installation_old hn hi'
    refine ⟨i, hi, ha.registry_eq, ?_⟩
    cases ha with
    | forgot => exact .inl (List.mem_filter.1 he).1
    | subscribed f h =>
      obtain he | he := List.mem_append.1 (List.mem_filter.1 he).1
      · exact .inl he
      · cases List.mem_singleton.1 he
        exact .inr ⟨rfl, h⟩
    | _ => exact .inl he
  · rw [World.installation?, World.install, Store.get?_insert] at hi'
    split at hi'
    · cases hi'
      cases he
    · exact ⟨i', hi', rfl, .inl he⟩

/-- What is in a slot of an installation was put there after that was installed, and a promise that is
parked waits: no wake has taken it out of a slot. -/
structure Filed (w : World) : Prop where
  installed : ∀ {id i}, w.installation? id = some i → ∃ cx, .installed cx id i.registry ∈ w.history
  resolver : ∀ {id i e}, w.installation? id = some i → e ∈ i.resolvers → ∃ cx d,
    After (.promised ⟨cx, e.1⟩ e.2 d) (.installed cx id i.registry) w.history
  subscription : ∀ {id i e}, w.installation? id = some i → e ∈ i.subscriptions → ∃ cx,
    After (.subscribed ⟨id, e.1⟩ e.2) (.installed cx id i.registry) w.history
  single : ∀ {id id' i i' e e'}, w.installation? id = some i → w.installation? id' = some i' →
    e ∈ i.resolvers → e' ∈ i'.resolvers → e.2 = e'.2 → id = id' ∧ e.1 = e'.1
  waits : ∀ {id i e k}, w.installation? id = some i → e ∈ i.resolvers →
    .unparked k e.2 ∉ w.history
  pending : ∀ {id i e}, w.installation? id = some i → e ∈ i.resolvers → w.IsPending e.2

namespace Filed

variable {w w' : World}

theorem lt (hw : Filed w) {id i e} (hi : w.installation? id = some i) (he : e ∈ i.resolvers) :
    e.2.index < w.objects.next := by
  obtain ⟨o, -, ho, -⟩ := hw.pending hi he
  exact Store.lt_next_of_get? ho

theorem move (hw : Filed w) (hr : Reachable w) (hm : Move w w') : Filed w' := by
  have hr' : Reachable w' := hr.moves (.single hm)
  constructor
  case installed =>
    intro id i' hi'
    obtain hn | ⟨cx, registry, hc, rfl⟩ := hm.installs
    · obtain ⟨i, hi, ha⟩ := hm.installation_old hn hi'
      obtain ⟨cx, h⟩ := hw.installed hi
      exact ⟨cx, ha.registry_eq ▸ hm.history.subset h⟩
    · rw [World.installation?, World.install, Store.get?_insert] at hi'
      split at hi'
      · next hid =>
        cases hi'
        obtain rfl : id = ⟨w.installations.next⟩ := InstallationId.index_inj.1 hid
        exact ⟨cx, List.mem_cons_self ..⟩
      · obtain ⟨c, h⟩ := hw.installed hi'
        exact ⟨c, List.mem_cons_of_mem _ h⟩
  case resolver =>
    intro id i' e hi' he
    obtain ⟨i, hi, hreg, he | ⟨rfl, cx, d, hb, hp⟩⟩ := hm.resolver hi' he
    · obtain ⟨cx, d, ha⟩ := hw.resolver hi he
      exact ⟨cx, d, hreg ▸ ha.mono hm.history⟩
    · have hnew : .promised ⟨cx, i.nextSlot⟩ ⟨w.objects.next⟩ d ∉ w.history := fun h =>
        Nat.lt_irrefl _ (hr.promised.lt h)
      obtain ⟨i₀, hi₀, hin⟩ := hr.bridged.installed (World.bridge?_eq_some.1 hb).1
      cases hi.symm.trans hi₀
      exact ⟨cx, d, hreg ▸ .of_new hm.history hp hnew hin⟩
  case subscription =>
    intro id i' e hi' he
    obtain ⟨i, hi, hreg, he | ⟨hslot, hs⟩⟩ := hm.subscription hi' he
    · obtain ⟨cx, ha⟩ := hw.subscription hi he
      exact ⟨cx, hreg ▸ ha.mono hm.history⟩
    · have hnew : .subscribed ⟨id, e.1⟩ e.2 ∉ w.history := fun h =>
        Nat.lt_irrefl _ (hslot ▸ hr.slotted.subscribed_lt h hi)
      obtain ⟨cx, hin⟩ := hw.installed hi
      exact ⟨cx, hreg ▸ .of_new hm.history hs hnew hin⟩
  case single =>
    intro id id' i i' e e' hi hi' he he' hpe
    obtain ⟨j, hj, -, he | ⟨rfl, cx, d, hb, hp⟩⟩ := hm.resolver hi he
    · obtain ⟨j', hj', -, he' | ⟨rfl, cx', d', hb', hp'⟩⟩ := hm.resolver hi' he'
      · exact hw.single hj hj' he he' hpe
      · exact absurd (congrArg ObjectId.index hpe) (Nat.ne_of_lt (hw.lt hj he))
    · obtain ⟨j', hj', -, he' | ⟨rfl, cx', d', hb', hp'⟩⟩ := hm.resolver hi' he'
      · exact absurd (congrArg ObjectId.index hpe.symm) (Nat.ne_of_lt (hw.lt hj' he'))
      · obtain ⟨hk, -⟩ := hr'.promised.unique hp hp'
        obtain ⟨rfl, hslot⟩ := Settlement.mk.inj hk
        cases hb.symm.trans hb'
        exact ⟨rfl, rfl⟩
  case waits =>
    intro id i' e k hi' he hu
    obtain ⟨i, hi, -, he₀ | ⟨rfl, cx, d, hb, hp⟩⟩ := hm.resolver hi' he
    · obtain hu | hu := hm.arises hu
      · exact hw.waits hi he₀ hu
      · cases hu with
        | @unparked cx slot status v rest home j _ hq hb hp hw' =>
          -- the wake found the promise in the one slot where it is, and took it out
          obtain ⟨e', he', rfl, hpe⟩ := World.mem_of_parked? (World.bridge?_eq_some.1 hb).2 hp
          obtain ⟨rfl, hslot⟩ := hw.single hi (World.bridge?_eq_some.1 hb).2 he₀ he' hpe.symm
          rw [hw', World.installation?_begin hb hp] at hi'
          cases hi'
          exact of_decide_eq_true (List.mem_filter.1 he).2 hslot
    · obtain hu | hu := hm.arises hu
      · obtain ⟨d', h⟩ := hr.promised.unparked hu
        exact Nat.lt_irrefl _ (hr.promised.lt h)
      · cases hu with
        | unparked hq hb' hp' hw' =>
          obtain ⟨e', he', -, hpe⟩ := World.mem_of_parked? (World.bridge?_eq_some.1 hb').2 hp'
          have hlt := hw.lt (World.bridge?_eq_some.1 hb').2 he'
          rw [hpe] at hlt
          exact Nat.lt_irrefl _ hlt
  case pending =>
    intro id i' e hi' he
    obtain ⟨i, hi, -, he | ⟨rfl, cx, d, hb, hp⟩⟩ := hm.resolver hi' he
    · obtain ⟨o, reactions, ho, hk⟩ := hw.pending hi he
      have hstays := hm.isSome_object (World.mem_references_of_resolver hi he) (by rw [ho]; rfl)
      obtain ⟨o', ho'⟩ := Option.isSome_iff_exists.1 hstays
      obtain ⟨o₁, ho₁, ht⟩ := hm.object (Store.lt_next_of_get? ho) ho'
      cases ho.symm.trans ho₁
      rw [hk] at ht
      generalize hk' : o'.kind = kind at ht
      cases ht with
      | same => exact ⟨o', reactions, ho', hk'⟩
      | awaited _ r => exact ⟨o', r, ho', hk'⟩
      | settled _ hu => exact absurd hu (hw.waits hi he)
      | settledOwn hf =>
        obtain ⟨cx, d, ha⟩ := hw.resolver hi he
        exact absurd ⟨_, d, ha.mem_newer⟩ hf
    · obtain h | h := hm.arises hp
      · exact absurd (hr.promised.lt h) (Nat.lt_irrefl _)
      · exact ⟨_, [], h.new_promise.2, rfl⟩

end Filed

/-- **What is in a slot** was put there after the bridge was installed. -/
theorem Reachable.filed {w : World} (h : Reachable w) : Filed w :=
  h.rec' (fun _ => ⟨nofun, nofun, nofun, nofun, nofun, nofun⟩) fun _ _ hr hw hm => hw.move hr hm

/-! ## Slots that are empty -/

/-- **A settlement whose slot is empty aborts**, and its delivery ends. -/
theorem deliverNext_of_empty_slot {run : Runner} {w : World} {cx : ContextId} {id i slot status v rest}
    (hb : w.bridge? cx = some (id, i)) (hq : (w.loopOf cx).queue = .settle slot status v :: rest)
    (hp : w.parked? id slot = none) : ∃ held, (Engine.deliverNext run cx).run w =
      .error (.aborted ("no pending foreign future in slot " ++ toString slot))
        (Engine.closeFrame.after (World.finish
          { w.pop cx (.settle slot status v) rest with
            history := .missed ⟨cx, slot⟩ :: .taken cx (.settle slot status v) :: w.history, held }
          cx (.settle slot status v) true)) := by
  generalize hw : w.pop cx (.settle slot status v) rest = wp
  have hb' : wp.bridge? cx = some (id, i) :=
    hw ▸ (World.bridge?_congr (World.data?_pop ..) rfl).trans hb
  have hp' : wp.parked? id slot = none := hw ▸ hp
  obtain ⟨held, hunpark⟩ := Engine.run_unpark hb' slot ([] :: wp.held)
  have hmissed : wp.unpark cx id slot = { wp with history := .missed ⟨cx, slot⟩ :: wp.history } := by
    rw [World.unpark, hp']
  rw [hp', hmissed] at hunpark
  have hwake : (Engine.runWake run cx (.settle slot status v)).run
      { wp with held := [] :: wp.held } = _ := Engine.run_bind_of_error hunpark
  have hdelivery : (Engine.runDelivery run cx (.settle slot status v)).run
      { wp with held := [] :: wp.held } = _ := Engine.run_runDelivery _
  rw [hwake] at hdelivery
  refine ⟨held, ?_⟩
  rw [Engine.run_deliverNext hq, hw]
  rw [Engine.run_bind_of_error (Engine.run_deliver_of_error hdelivery), ← hw]
  rfl

namespace Reinstallation

/-! The bridge is installed again while the settlement of a promise is queued. -/

def completed : World :=
  ((DoubleConversion.once.complete ⟨0⟩ .resolved (.bool true)).map Prod.fst).getD
    DoubleConversion.once

def installed : World :=
  completed.install ⟨0⟩ .base

theorem reachable_installed : Reachable installed := by
  have honce : Moves World.hosted DoubleConversion.once :=
    .tail (.single .newDeferred) (.promise (i := { registry := .base }) rfl rfl)
  have hcompleted : Moves DoubleConversion.once completed := by
    have h : DoubleConversion.once.complete ⟨0⟩ .resolved (.bool true) = some (completed, []) := rfl
    exact .complete h
  have hinstalled : Move completed installed := .install .base rfl
  exact reachable_hosted.moves ((honce.trans hcompleted).tail hinstalled)

/-- Another deferred gets a promise, in the slot that the first promise had. -/
def promised : World :=
  (installed.newDeferred.promise ⟨0⟩ ⟨1⟩ 1 ⟨1⟩ {}).1

def taken : World :=
  (promised.pop ⟨0⟩ (.settle 1 .resolved (.bool true)) []).begin ⟨0⟩
    (.settle 1 .resolved (.bool true))

def settled : World :=
  taken.fix ⟨1⟩ (.fulfilled (.bool true))

theorem reachable_promised : Reachable promised :=
  reachable_installed.moves
    (.tail (.single .newDeferred) (.promise (i := { registry := .base }) rfl rfl))

theorem reachable_settled : Reachable settled := by
  have htaken : Move promised taken := by
    have h : promised.take ⟨0⟩ = some (.settle 1 .resolved (.bool true),
      promised.pop ⟨0⟩ (.settle 1 .resolved (.bool true)) []) := rfl
    exact .take h
  have hhistory : taken.history = [.unparked ⟨⟨0⟩, 1⟩ ⟨1⟩,
    .taken ⟨0⟩ (.settle 1 .resolved (.bool true)), .promised ⟨⟨0⟩, 1⟩ ⟨1⟩ ⟨1⟩,
    .installed ⟨0⟩ ⟨1⟩ .base, .sent ⟨0⟩ (.settle 1 .resolved (.bool true)),
    .completed ⟨0⟩ .resolved (.bool true), .promised ⟨⟨0⟩, 1⟩ ⟨0⟩ ⟨0⟩,
    .installed ⟨0⟩ ⟨0⟩ .base] := rfl
  have hunparked : .unparked ⟨⟨0⟩, 1⟩ ⟨1⟩ ∈ taken.history := by simp [hhistory]
  have hinstalled : .installed ⟨0⟩ ⟨1⟩ .base ∈ taken.history := by simp [hhistory]
  have hconverts : (Engine.toForeign (Session.runner 0) ⟨0⟩ .base (.bool true)).run taken =
    .ok (.ok (.bool true)) taken := rfl
  have hsettled : Move taken settled :=
    .settle rfl hunparked ⟨{ context := ⟨0⟩, kind := .promise (.pending []) }, [], rfl, rfl⟩
      hinstalled (.converted hconverts)
  exact reachable_promised.moves ((Relation.ReflTransGen.single htaken).tail hsettled)

/-- An event is queued while the bridge is installed again, and then another callback is subscribed. -/
def resubscribed : World :=
  ((LateFiring.fired.install ⟨0⟩ .base).setSubscriber ⟨0⟩ 0 ⟨1⟩ 1 (some (.object ⟨2⟩))).1

theorem reachable_resubscribed : Reachable resubscribed := by
  have hinstalled : Move LateFiring.fired (LateFiring.fired.install ⟨0⟩ .base) := .install .base rfl
  have hb : (LateFiring.fired.install ⟨0⟩ .base).bridge? ⟨0⟩ = some (⟨1⟩, { registry := .base }) := rfl
  have hsubscribed : Move (LateFiring.fired.install ⟨0⟩ .base) resubscribed := .setSubscriber _ _ _ hb
  exact LateFiring.reachable_fired.moves ((Relation.ReflTransGen.single hinstalled).tail hsubscribed)

end Reinstallation

/-! ## Slots that are taken -/

/-- **The settlement of an earlier installation settles a later promise** whose own deferred is pending. -/
theorem settled_by_earlier : Reachable Reinstallation.settled ∧
    .promised ⟨⟨0⟩, 1⟩ ⟨1⟩ ⟨1⟩ ∈ Reinstallation.settled.history ∧
    outcome? ⟨1⟩ Reinstallation.settled.history = none ∧
    Reinstallation.settled.IsSettled ⟨1⟩ (.fulfilled (.bool true)) := by
  refine ⟨Reinstallation.reachable_settled, ?_, rfl, ?_, nofun⟩
  · exact List.mem_cons_of_mem _ (List.mem_cons_of_mem _ (List.mem_cons_self ..))
  · exact ⟨{ context := ⟨0⟩, kind := .promise (.fulfilled (.bool true)) }, rfl, rfl⟩

/-! ## Events -/

/-- The callback that an event is prepared for is in the slot of the token. -/
theorem Engine.prepareEvent_ok {run : Runner} {w w' : World} {cx : ContextId} {id i token args callback}
    {values : List ForeignValue} (hb : w.bridge? cx = some (id, i))
    (h : (Engine.prepareEvent run cx token args).run w = .ok (some (callback, values)) w') :
    (token.slot, callback) ∈ i.subscriptions := by
  obtain ⟨found, w₁, hfound, hrest⟩ := Engine.bind_ok h
  obtain ⟨held, hrecipient⟩ := Engine.run_recipient? hb token
  obtain ⟨hr, -⟩ := EStateM.Result.ok.inj (hfound.symm.trans hrecipient)
  cases found with
  | none => cases hrest
  | some found =>
    obtain ⟨registry, f⟩ := found
    obtain ⟨vs, w₂, -, hpure⟩ := Engine.bind_ok hrest
    cases hpure
    split at hr
    · obtain ⟨e, he, hf⟩ := Option.map_eq_some_iff.1 hr.symm
      cases hf
      have hslot : e.1 = token.slot := by simpa using List.find?_some he
      exact hslot ▸ List.mem_of_find?_eq_some he
    · cases hr

/-! ## Wakes of an earlier installation -/

/-- **A wake finds what it is for by the number of a slot**, in the installation that its context has when
it is delivered, whatever the wake was sent for. -/
structure World.FoundByNumber (w : World) (n : Nat) (cx : ContextId) (id : InstallationId)
    (i : Installation) : Prop where
  /-- A promise in a slot was made after the bridge was installed, and waits. -/
  parked : ∀ {slot p}, w.parked? id slot = some p → w.IsPending p ∧
    ∃ d, After (.promised ⟨cx, slot⟩ p d) (.installed cx id i.registry) w.history
  /-- A settlement whose slot is empty aborts. -/
  aborts : ∀ {slot status v rest}, (w.loopOf cx).queue = .settle slot status v :: rest →
    w.parked? id slot = none → ∃ w', (Engine.deliverNext (Session.runner n) cx).run w =
      .error (.aborted ("no pending foreign future in slot " ++ toString slot)) w'
  /-- Any other that comes to its end has settled the promise in the slot, with an outcome of its own. -/
  settles : ∀ {slot status v rest p w'}, (w.loopOf cx).queue = .settle slot status v :: rest →
    w.parked? id slot = some p → (Engine.deliverNext (Session.runner n) cx).run w = .ok true w' →
    ∃ w₁ fulfil x turn, Settles w₁ cx i.registry status v (Engine.outcome fulfil x) ∧
      w'.trace p = w.trace p ++ .settled fulfil x :: turn
  /-- The callback that an event calls was subscribed after the bridge was installed, whichever token
  the event has. -/
  calls : ∀ {token args rest callback values w₁}, (w.loopOf cx).queue = .event token args :: rest →
    let w₀ := { w.pop cx (.event token args) rest with held := [] :: w.held }
    (Engine.prepareEvent (Session.runner n) cx token args).run w₀ = .ok (some (callback, values)) w₁ →
    After (.subscribed ⟨id, token.slot⟩ callback) (.installed cx id i.registry) w.history ∧
      (Engine.runWake (Session.runner n) cx (.event token args)).run w₀ =
        (do let _ ← Engine.call (Session.runner n) cx callback .undefined values : Engine Unit).run
          (w₁.hear cx token args (.called callback values))

/-- **Installing the bridge again misleads the work in flight**: what was sent under an earlier installation
aborts, or settles and calls what was made under the later one. -/
theorem Reachable.foundByNumber {w : World} (h : Reachable w) (n : Nat) {cx : ContextId} {id i}
    (hb : w.bridge? cx = some (id, i)) : w.FoundByNumber n cx id i := by
  have hi := (World.bridge?_eq_some.1 hb).2
  have hparked {slot p} (hp : w.parked? id slot = some p) : w.IsPending p ∧
      ∃ d, After (.promised ⟨cx, slot⟩ p d) (.installed cx id i.registry) w.history := by
    obtain ⟨e, he, rfl, rfl⟩ := World.mem_of_parked? hi hp
    obtain ⟨c, d, ha⟩ := h.filed.resolver hi he
    obtain rfl := h.bridged.owner_eq hb ha.mem_older
    exact ⟨h.filed.pending hi he, d, ha⟩
  constructor
  case parked => exact hparked
  case aborts =>
    intro slot status v rest hq hp
    obtain ⟨held, hrun⟩ := deliverNext_of_empty_slot hb hq hp
    exact ⟨_, hrun⟩
  case settles =>
    intro slot status v rest p w' hq hp hok
    obtain ⟨w₁, fulfil, x, turn, hs, hwent⟩ := Engine.deliverNext_trace hb hq hp (hparked hp).1 hok
    exact ⟨w₁, fulfil, x, turn, hs, hwent.trace⟩
  case calls =>
    intro token args rest callback values w₁ hq w₀ hprepare
    have hb₀ : w₀.bridge? cx = some (id, i) :=
      (World.bridge?_congr (World.data?_pop w cx (.event token args) rest cx) rfl).trans hb
    have hattempt := Engine.run_attempt (Engine.prepareEvent (Session.runner n) cx token args) w₀
    rw [hprepare] at hattempt
    obtain ⟨c, ha⟩ := h.filed.subscription hi (Engine.prepareEvent_ok hb₀ hprepare)
    obtain rfl := h.bridged.owner_eq hb ha.mem_older
    exact ⟨ha, Engine.run_bind_of_ok hattempt⟩

/-- The settlement of an earlier installation aborts while nothing was promised since, and settles the
first promise that was.  An event calls the first callback that was subscribed. -/
theorem foundByNumber_of_reinstalled :
    After (.installed ⟨0⟩ ⟨1⟩ .base) (.sent ⟨0⟩ (.settle 1 .resolved (.bool true)))
      Reinstallation.promised.history ∧
    (∃ w', (Engine.deliverNext (Session.runner 0) ⟨0⟩).run Reinstallation.installed =
      .error (.aborted ("no pending foreign future in slot " ++ toString 1)) w') ∧
    (∃ d, After (.promised ⟨⟨0⟩, 1⟩ ⟨1⟩ d) (.installed ⟨0⟩ ⟨1⟩ .base) Reinstallation.promised.history) ∧
    (∃ w' fulfil x turn, (Engine.deliverNext (Session.runner 0) ⟨0⟩).run Reinstallation.promised =
      .ok true w' ∧ w'.trace ⟨1⟩ = .settled fulfil x :: turn) ∧
    (Reinstallation.resubscribed.loopOf ⟨0⟩).queue = [LateFiring.wake, LateFiring.wake] ∧
    After (.subscribed ⟨⟨1⟩, 1⟩ (.object ⟨2⟩)) (.installed ⟨0⟩ ⟨1⟩ .base)
      Reinstallation.resubscribed.history := by
  have hempty : Reinstallation.installed.FoundByNumber 0 ⟨0⟩ ⟨1⟩ { registry := .base } :=
    Reinstallation.reachable_installed.foundByNumber 0 rfl
  have htaken : Reinstallation.promised.FoundByNumber 0 ⟨0⟩ ⟨1⟩
      { registry := .base, resolvers := [(1, ⟨1⟩)], nextSlot := 2 } :=
    Reinstallation.reachable_promised.foundByNumber 0 rfl
  have hcalled : Reinstallation.resubscribed.FoundByNumber 0 ⟨0⟩ ⟨1⟩
      { registry := .base, subscriptions := [(1, .object ⟨2⟩)], nextSlot := 2 } :=
    Reinstallation.reachable_resubscribed.foundByNumber 0 rfl
  have hrun : ∃ w', (Engine.deliverNext (Session.runner 0) ⟨0⟩).run Reinstallation.promised =
    .ok true w' := ⟨_, rfl⟩
  obtain ⟨w', hrun⟩ := hrun
  obtain ⟨w₁, fulfil, x, turn, -, htrace⟩ := htaken.settles rfl rfl hrun
  refine ⟨?_, hempty.aborts rfl rfl, (htaken.parked rfl).2, ⟨w', fulfil, x, turn, hrun, htrace⟩, rfl, ?_⟩
  · exact .cons _ (.cons_cons _ (.cons_cons _ (List.nil_sublist _)))
  · obtain ⟨hafter, -⟩ := hcalled.calls rfl rfl
    exact hafter

end Isthmus
