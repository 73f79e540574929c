import Isthmus.Proofs.Run.Tokens

/-!
# Proofs/Run/Subscriptions — which callbacks an installation retains

Callbacks are forgotten when a subscriber changes and when channels go, but not when a delivery ends.  So
an installation retains the callbacks that are in a channel, and those that had a firing on its way when
callbacks were last forgotten (`Reachable.retained_iff`).
-/

namespace Isthmus

open History

/-! ## Forgetting -/

namespace History

/-- A callback is left behind by a firing that took it. -/
theorem aimed_of_leftBehind {t : Token} {h : List Occurrence} (hl : leftBehind t h) :
    ∃ cx args, .aimed cx t args ∈ h := by
  induction h with
  | nil => exact absurd hl Bool.false_ne_true
  | cons o h ih =>
    have older (hs : ∃ cx args, .aimed cx t args ∈ h) : ∃ cx args, .aimed cx t args ∈ o :: h := by
      obtain ⟨cx, args, hs⟩ := hs
      exact ⟨cx, args, List.mem_cons_of_mem _ hs⟩
    cases o with
    | pruned id =>
      rw [leftBehind] at hl
      split at hl
      · exact older (aimed_of_inFlight (of_decide_eq_true hl))
      · exact older (ih hl)
    | _ => exact older (ih hl)

/-- Forgetting leaves behind what has an event in flight. -/
theorem leftBehind_pruned_self (t : Token) (h : List Occurrence) :
    leftBehind t (.pruned t.installation :: h) ↔ 0 < inFlight t h := by
  rw [leftBehind, if_pos rfl, decide_eq_true_eq]

end History

namespace World

variable {w w' : World} {id home : InstallationId}

/-- The installation has just forgotten what no subscription wants. -/
structure Pruned (w : World) (id : InstallationId) : Prop where
  history : ∃ older, w.history = .pruned id :: older
  wanted : ∀ {i}, w.installation? id = some i → ∀ e ∈ i.subscriptions, w.isSubscribed ⟨id, e.1⟩

theorem pruned {i} (hi : w.installation? id = some i) : Pruned (w.prune id).1 id where
  history := by
    rw [prune, hi]
    exact ⟨_, rfl⟩
  wanted {i'} hi' e he := by
    rw [prune_installation? w id hi, if_pos rfl] at hi'
    cases hi'
    rw [isSubscribed_prune]
    exact (List.mem_filter.1 he).2

/-- Forgetting elsewhere leaves behind as much as before. -/
theorem leftBehind_prune (hh : id ≠ home) (slot : Nat) :
    leftBehind ⟨id, slot⟩ (w.prune home).1.history = leftBehind ⟨id, slot⟩ w.history := by
  rw [prune]
  split
  · rfl
  · exact if_neg (Ne.symm hh)

/-- Another installation forgets callbacks. -/
theorem prune_installation?_of_ne (hh : id ≠ home) :
    (w.prune home).1.installation? id = w.installation? id := by
  rw [prune]
  split
  · rfl
  · rw [installation?, forget_installations, Store.get?_modify,
      if_neg fun h => hh (InstallationId.index_inj.1 h)]
    rfl

/-- A subscriber that changes by way of an installation makes it forget callbacks. -/
theorem pruned_setSubscriber {cx i c} {key : ChannelsId} (hb : w.bridge? cx = some (id, i))
    (hc : w.channels? key = some c) (place : Nat) (callback : Option ForeignValue) :
    Pruned (w.setSubscriber key place id i.nextSlot callback).1 id := by
  have hi := (bridge?_eq_some.1 hb).2
  unfold setSubscriber
  rw [hc]
  cases callback with
  | none => exact pruned (w := w.switch key place id c.installation none) hi
  | some f =>
    have hk := installation?_modify (w.keepCallback_installations id i.nextSlot f) hi
    exact pruned (w := (w.keepCallback id i.nextSlot f).switch key place id c.installation
      (some ⟨id, i.nextSlot⟩)) hk

/-- Subscribing by way of one installation leaves the others alone. -/
theorem setSubscriber_of_ne (hh : id ≠ home) {key : ChannelsId} {c} (hc : w.channels? key = some c)
    (place slot : Nat) (callback : Option ForeignValue) :
    (w.setSubscriber key place home slot callback).1.installation? id = w.installation? id ∧
      ∀ s, leftBehind ⟨id, s⟩ (w.setSubscriber key place home slot callback).1.history =
        leftBehind ⟨id, s⟩ w.history := by
  unfold setSubscriber
  rw [hc]
  cases callback with
  | none =>
    exact ⟨prune_installation?_of_ne hh, leftBehind_prune hh⟩
  | some f =>
    refine ⟨(prune_installation?_of_ne hh).trans ?_, leftBehind_prune hh⟩
    have hk : ((w.keepCallback home slot f).switch key place home c.installation
        (some ⟨home, slot⟩)).installations = _ := w.keepCallback_installations home slot f
    rw [installation?, hk, Store.get?_modify, if_neg fun h => hh (InstallationId.index_inj.1 h)]
    rfl

/-! ## What is retained -/

/-- **What an installation retains**: the callbacks in channels, and those that were left behind. -/
def Retains (w : World) (id : InstallationId) : Prop :=
  ∀ i, w.installation? id = some i → ∀ slot, slot ∈ i.subscriptions.map (·.1) ↔
    w.Subscribes ⟨id, slot⟩ ∨ leftBehind ⟨id, slot⟩ w.history

/-- After forgetting, what had a firing on its way is what is left behind. -/
theorem Pruned.retains (hp : Pruned w id) (h : Reachable w) : w.Retains id := by
  intro i hi slot
  obtain ⟨older, hh⟩ := hp.history
  have hl : leftBehind ⟨id, slot⟩ w.history ↔ 0 < w.airborne ⟨id, slot⟩ := by
    have hf := h.flights ⟨id, slot⟩
    have ho : inFlight ⟨id, slot⟩ (.pruned id :: older) = inFlight ⟨id, slot⟩ older := rfl
    rw [hh, ho] at hf
    rw [hh, leftBehind_pruned_self, hf]
    omega
  rw [hl, ← isSubscribed_iff]
  constructor
  · intro hs
    obtain ⟨e, he, rfl⟩ := List.mem_map.1 hs
    exact hp.wanted hi e he
  · exact fun ht => h.kept ht hi

/-- Nothing changes that bears on what an installation retains. -/
theorem Retains.of_same (hw : w.Retains id)
    (hs : ∀ i', w'.installation? id = some i' → ∃ i, w.installation? id = some i ∧
      i'.subscriptions = i.subscriptions)
    (ht : ∀ slot, w'.Subscribes ⟨id, slot⟩ ↔ w.Subscribes ⟨id, slot⟩)
    (hl : ∀ slot, leftBehind ⟨id, slot⟩ w'.history = leftBehind ⟨id, slot⟩ w.history) :
    w'.Retains id := by
  intro i' hi' slot
  obtain ⟨i, hi, he⟩ := hs i' hi'
  rw [he, ht, hl]
  exact hw i hi slot

/-- Installing a bridge elsewhere retains as much as before. -/
theorem Retains.install (hw : w.Retains id) (hr : Reachable w) (cx : ContextId)
    (registry : Registry) : (w.install cx registry).Retains id := by
  intro i hi slot
  rw [installation?, World.install, Store.get?_insert] at hi
  split at hi
  · next hn =>
    cases hi
    have hfresh {f} (hf : .subscribed ⟨id, slot⟩ f ∈ w.history) : False :=
      absurd (hr.slotted.subscribed_fresh hf) (Nat.not_lt.2 (Nat.le_of_eq hn.symm))
    refine iff_of_false List.not_mem_nil ?_
    rintro (ht | hl)
    · obtain ⟨f, hf⟩ := hr.rooted.token ht
      exact hfresh hf
    · have hl : leftBehind ⟨id, slot⟩ w.history := hl
      obtain ⟨c, args, hs⟩ := aimed_of_leftBehind hl
      obtain ⟨⟨f, hf⟩, -⟩ := hr.rooted.aimed hs
      exact hfresh hf
  · exact hw i hi slot

/-- Channels with a subscriber of a local installation are not those of another installation. -/
theorem ne_of_subscriber (hr : Reachable w) {key other : ChannelsId} {c c' : Channels} {s : Nat}
    (hc : w.channels? key = some c) (hci : c.installation ≠ id) (hl : w.IsLocal id)
    (hc' : w.channels? other = some c') (ht : some ⟨id, s⟩ ∈ c'.subscribers) :
    other.index ≠ key.index := by
  intro hk
  obtain rfl : other = key := congrArg ChannelsId.mk hk
  obtain rfl : c = c' := Option.some.inj (hc.symm.trans hc')
  exact hci ((hr.rooted.home hc ht hl).1 rfl)

/-- So does setting a subscriber elsewhere. -/
theorem Retains.switch (hw : w.Retains id) (hr : Reachable w) (hh : id ≠ home) {key : ChannelsId} {c}
    (hc : w.channels? key = some c) (hci : c.installation ≠ id) (hl : w.IsLocal id)
    (place slot : Nat) (callback : Option ForeignValue) :
    (w.setSubscriber key place home slot callback).1.Retains id := by
  obtain ⟨hi, hleft⟩ := setSubscriber_of_ne hh hc place slot callback
  refine hw.of_same (fun i' hi' => ⟨i', hi ▸ hi', rfl⟩) (fun s => ?_) hleft
  constructor
  · rintro ⟨other, c', hc', ht⟩
    rw [channels?, setSubscriber_channels hc, Store.get?_modify] at hc'
    split at hc'
    · obtain ⟨c₀, hc₀, rfl⟩ := Option.map_eq_some_iff.1 hc'
      obtain ht | ht := List.mem_or_eq_of_mem_set ht
      · exact ⟨other, c₀, hc₀, ht⟩
      · obtain ⟨f, -, ht⟩ := Option.map_eq_some_iff.1 ht.symm
        exact absurd (congrArg Token.installation ht).symm hh
    · exact ⟨other, c', hc', ht⟩
  · rintro ⟨other, c', hc', ht⟩
    refine ⟨other, c', ?_, ht⟩
    rw [channels?, setSubscriber_channels hc, Store.get?_modify, if_neg]
    · exact hc'
    · exact ne_of_subscriber hr hc hci hl hc' ht

/-- So does disconnecting channels of another installation. -/
theorem Retains.disconnect (hw : w.Retains id) (hr : Reachable w) {key : ChannelsId} {c}
    (hc : w.channels? key = some c) (hci : c.installation ≠ id) (hl : w.IsLocal id) :
    ((w.disconnect key c).prune c.installation).1.Retains id := by
  refine hw.of_same (fun i' hi' => ⟨i', ?_, rfl⟩) (fun s => ?_) fun s => ?_
  · rwa [prune_installation?_of_ne (Ne.symm hci)] at hi'
  · have hch : ((w.disconnect key c).prune c.installation).1.channels = w.channels.erase key.index :=
      prune_channels ..
    constructor
    · rintro ⟨other, c', hc', ht⟩
      rw [channels?, hch, Store.get?_erase] at hc'
      split at hc'
      · cases hc'
      · exact ⟨other, c', hc', ht⟩
    · rintro ⟨other, c', hc', ht⟩
      refine ⟨other, c', ?_, ht⟩
      rw [channels?, hch, Store.get?_erase, if_neg]
      · exact hc'
      · exact ne_of_subscriber hr hc hci hl hc' ht
  · exact leftBehind_prune (w := w.disconnect key c) (Ne.symm hci) s

/-- **A move retains callbacks as the history says**. -/
theorem Retains.move (hw : w.Retains id) (hr : Reachable w) (hm : Move w w') (hl : w'.IsLocal id) :
    w'.Retains id := by
  have hr' := hr.moves (.single hm)
  have hl₀ := hl.move hm
  cases hm.stirs with
  | still h hc =>
    refine hw.of_same (fun i' hi' => ?_) (fun slot => ?_) fun slot => h.leftBehind _
    · obtain ⟨i, hi⟩ := Option.isSome_iff_exists.1 (h.installs.isSome id (by rw [hi']; rfl))
      exact ⟨i, hi, h.subscriptions hi hi'⟩
    · simp only [Subscribes, channels?_congr hc]
  | installed hc hw' =>
    rw [hw']
    exact hw.install hr _ _
  | @connected c i hb hs hw' =>
    subst hw'
    refine hw.of_same (fun i' hi' => ⟨i', hi', rfl⟩) (fun slot => ⟨?_, ?_⟩) fun slot => rfl
    · rintro ⟨other, c', hc', ht⟩
      rw [channels?, Store.get?_insert] at hc'
      split at hc'
      · cases hc'
        cases hs _ ht
      · exact ⟨other, c', hc', ht⟩
    · rintro ⟨other, c', hc', ht⟩
      refine ⟨other, c', ?_, ht⟩
      rw [channels?, Store.get?_insert, if_neg (Nat.ne_of_lt (Store.lt_next_of_get? hc'))]
      exact hc'
  | @switched cx home i c key place callback hb hc hw' =>
    have hsw : .switched home c.installation ∈ w'.history := hw' ▸ mem_switched hc ..
    by_cases hh : home = id
    · subst hh
      have hp := pruned_setSubscriber hb hc place callback
      rw [← hw'] at hp
      exact hp.retains hr'
    · rw [hw']
      exact hw.switch hr (Ne.symm hh) hc (fun h => hh ((hl _ _ hsw).2 h)) hl₀ place i.nextSlot
        callback
  | @erased key c hc hw' =>
    by_cases hh : c.installation = id
    · cases hi : w.installation? id with
      | some i =>
        have hp := pruned (w := w.disconnect key c) hi
        rw [← hh, ← hw'] at hp
        exact hh ▸ hp.retains hr'
      | none =>
        have hn : (w.disconnect key c).installation? c.installation = none := hh ▸ hi
        intro i' hi'
        rw [hw', prune, hn] at hi'
        cases hi.symm.trans hi'
    · rw [hw']
      exact hw.disconnect hr hc hh hl₀

end World

/-- **Callbacks are retained** as long as they are in a channel; and one that had a firing on its way when
callbacks were last forgotten is retained until callbacks are forgotten again. -/
theorem Reachable.retained_iff {w : World} (h : Reachable w) {id i}
    (hi : w.installation? id = some i) (hl : w.IsLocal id) (slot : Nat) (f : ForeignValue) :
    (slot, f) ∈ i.subscriptions ↔ .subscribed ⟨id, slot⟩ f ∈ w.history ∧
      (w.Subscribes ⟨id, slot⟩ ∨ leftBehind ⟨id, slot⟩ w.history) := by
  have hret : w.Retains id := by
    refine h.rec' (P := fun w => w.IsLocal id → w.Retains id) (fun _ _ i hi => by cases hi)
      (fun w w' hr hw hm hl => ?_) hl
    exact (hw (hl.move hm)).move hr hm hl
  constructor
  · intro he
    exact ⟨h.slotted.subscription hi he, (hret i hi slot).1 (List.mem_map_of_mem he)⟩
  · rintro ⟨hf, hs⟩
    obtain ⟨⟨slot', f'⟩, he, rfl⟩ := List.mem_map.1 ((hret i hi slot).2 hs)
    obtain rfl := h.slotted.subscribed_unique hf (h.slotted.subscription hi he)
    exact he

namespace LateFiring

/-! An event is fired twice, and its subscriber leaves before the first firing is delivered. -/

def channels : Channels where
  context := ⟨0⟩
  indices := [0]
  signatures := ["ping()"]
  subscribers := [none]
  source := ⟨0⟩
  connection := ⟨0⟩
  installation := ⟨0⟩

def connected : World :=
  { World.hosted with channels := World.hosted.channels.insert channels }

def subscribed : World :=
  (connected.setSubscriber ⟨0⟩ 0 ⟨0⟩ 1 (some (.object ⟨1⟩))).1

def fired : World :=
  ((subscribed.fire ⟨0⟩ 0 []).1.fire ⟨0⟩ 0 []).1

def unsubscribed : World :=
  (fired.setSubscriber ⟨0⟩ 0 ⟨0⟩ 2 none).1

/-- The wake of a firing. -/
def wake : Wake :=
  .event ⟨⟨0⟩, 1⟩ []

/-- One firing is delivered; `rest` stays queued. -/
def deliver (w : World) (rest : List Wake) : World :=
  ((w.pop ⟨0⟩ wake rest).hear ⟨0⟩ ⟨⟨0⟩, 1⟩ [] (.called (.object ⟨1⟩) [])).finish ⟨0⟩ wake false

def once : World :=
  deliver unsubscribed [wake]

def drained : World :=
  deliver once []

theorem mem_deliver {w : World} {o} (rest : List Wake) (h : o ∈ w.history) :
    o ∈ (deliver w rest).history :=
  List.mem_cons_of_mem _ (List.mem_cons_of_mem _ (List.mem_cons_of_mem _ h))

/-- The first moments of the example can be reached. -/
theorem reachable_fired : Reachable fired := by
  have hb : World.hosted.bridge? ⟨0⟩ = some (⟨0⟩, { registry := .base }) := rfl
  have hconnect : Move World.hosted connected := .connect hb (by simp [channels])
  have hb : connected.bridge? ⟨0⟩ = some (⟨0⟩, { registry := .base }) := rfl
  have hsubscribe : Move connected subscribed := .setSubscriber _ _ _ hb
  have hfire : Moves subscribed fired :=
    (Moves.fire subscribed ⟨0⟩ 0 []).trans (Moves.fire _ ⟨0⟩ 0 [])
  exact reachable_hosted.moves (((Relation.ReflTransGen.single hconnect).tail hsubscribe).trans hfire)

theorem reachable_unsubscribed : Reachable unsubscribed := by
  have hb : fired.bridge? ⟨0⟩ = some (⟨0⟩,
    { registry := .base, subscriptions := [(1, .object ⟨1⟩)], nextSlot := 2 }) := rfl
  have hunsubscribe : Move fired unsubscribed := .setSubscriber _ _ _ hb
  exact reachable_fired.moves (.single hunsubscribe)

/-- A firing that is first in the queue is delivered. -/
theorem moves_deliver {w : World} {rest : List Wake}
    (hq : (w.loopOf ⟨0⟩).queue = wake :: rest) (hi : .installed ⟨0⟩ ⟨0⟩ .base ∈ w.history)
    (hs : .subscribed ⟨⟨0⟩, 1⟩ (.object ⟨1⟩) ∈ w.history) : Moves w (deliver w rest) := by
  have htake : Move w (w.pop ⟨0⟩ wake rest) := by
    have h : w.take ⟨0⟩ = some (wake, w.pop ⟨0⟩ wake rest) := by
      rw [World.take, hq]
    exact .take h
  have hv : (Engine.eventArguments (Session.runner 0) ⟨0⟩ .base []).run (w.pop ⟨0⟩ wake rest) =
    .ok [] (w.pop ⟨0⟩ wake rest) := rfl
  have hhear : Move (w.pop ⟨0⟩ wake rest)
      ((w.pop ⟨0⟩ wake rest).hear ⟨0⟩ ⟨⟨0⟩, 1⟩ [] (.called (.object ⟨1⟩) [])) :=
    .hear rfl (.called (List.mem_cons_of_mem _ hi) (List.mem_cons_of_mem _ hs) hv)
  have hfinish : Move _ (deliver w rest) := .finish rfl rfl fun _ slot status v h => by cases h
  exact ((Relation.ReflTransGen.single htake).tail hhear).tail hfinish

theorem unsubscribed_history : unsubscribed.history =
    [.pruned ⟨0⟩, .switched ⟨0⟩ ⟨0⟩, .sent ⟨0⟩ wake, .aimed ⟨0⟩ ⟨⟨0⟩, 1⟩ [], .sent ⟨0⟩ wake,
      .aimed ⟨0⟩ ⟨⟨0⟩, 1⟩ [], .pruned ⟨0⟩, .switched ⟨0⟩ ⟨0⟩, .subscribed ⟨⟨0⟩, 1⟩ (.object ⟨1⟩),
      .installed ⟨0⟩ ⟨0⟩ .base] := rfl

theorem mem_installed : .installed ⟨0⟩ ⟨0⟩ .base ∈ unsubscribed.history := by
  simp [unsubscribed_history]

theorem mem_subscribed : .subscribed ⟨⟨0⟩, 1⟩ (.object ⟨1⟩) ∈ unsubscribed.history := by
  simp [unsubscribed_history]

theorem reachable_once : Reachable once :=
  reachable_unsubscribed.moves (moves_deliver rfl mem_installed mem_subscribed)

theorem reachable_drained : Reachable drained :=
  reachable_once.moves
    (moves_deliver rfl (mem_deliver _ mem_installed) (mem_deliver _ mem_subscribed))

theorem isLocal_drained : drained.IsLocal ⟨0⟩ := by
  intro home owner hs
  have hs : .switched home owner ∈ unsubscribed.history := by
    simpa [drained, once, deliver, World.finish, World.unregister, World.hear, World.pop] using hs
  rw [unsubscribed_history] at hs
  simp only [List.mem_cons, reduceCtorEq, Occurrence.switched.injEq, false_or, List.not_mem_nil,
    or_false] at hs
  obtain ⟨rfl, rfl⟩ | ⟨rfl, rfl⟩ := hs
  · exact Iff.rfl
  · exact Iff.rfl

end LateFiring

/-- A subscriber that left with a firing on its way is retained when nothing is queued any more. -/
theorem retained_of_late_firing : (LateFiring.drained.loopOf ⟨0⟩).queue = [] ∧
    LateFiring.drained.delivering = [] ∧ ¬ LateFiring.drained.Subscribes ⟨⟨0⟩, 1⟩ ∧
      ∃ i, LateFiring.drained.installation? ⟨0⟩ = some i ∧ (1, .object ⟨1⟩) ∈ i.subscriptions := by
  have hi : LateFiring.drained.installation? ⟨0⟩ =
    some { registry := .base, subscriptions := [(1, .object ⟨1⟩)], nextSlot := 2 } := rfl
  have hiff := LateFiring.reachable_drained.retained_iff hi LateFiring.isLocal_drained 1 (.object ⟨1⟩)
  refine ⟨rfl, rfl, ?_, _, hi, hiff.2 ⟨?_, .inr rfl⟩⟩
  · rintro ⟨id, c, hc, ht⟩
    have he : LateFiring.drained.channels.entries = [(0, LateFiring.channels)] := rfl
    have hm := Store.get?_eq_some_iff.1 hc
    rw [he, List.mem_singleton] at hm
    rw [(Prod.mk.inj hm).2] at ht
    cases List.mem_singleton.1 ht
  · exact LateFiring.mem_deliver _ (LateFiring.mem_deliver _ LateFiring.mem_subscribed)

end Isthmus
