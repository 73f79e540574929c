import Isthmus.Proofs.Members.Calls
import Isthmus.Proofs.Members.Listings
import Isthmus.Proofs.Members.Reach
import Isthmus.Proofs.Run.Routing
import Isthmus.Proofs.Run.Session

/-!
# Proofs/Members/Channels — listing channels and subscribing to them

A channel is called by a signature on the foreign side and by the index of a method on the native side.
Both are kept in lists that leave out the methods that are no events, and the place of the one is the place
of the other (`Channels.Covers`).  So a subscription to a signature hears the firings of its event.

* `World.Misuses` — which calls of `on` are refused, and with which error.
* `World.Channelled` — what `on`, the channels of an instance and the description of its class do.
* `Session.lists_and_routes` — they do so in every world that a session comes to.
* `misrouted_after_install` — a firing that is on its way when another bridge is installed is heard by a
  subscriber of another event: the condition of `World.Routes.called` is needed.
-/

namespace Isthmus

open World

/-! ## Calls that are refused -/

/-- **What is wrong with a call of `on`**: it has a signature and a function or nothing, but the instance has
no such channel, or it has arguments of another shape. -/
inductive World.Misuses (w : World) (d : TypeDescriptor) (x : Handle) :
    List ForeignValue → BridgeError → Prop where
  | unknown {s f} (hf : w.isFunction f = true ∨ f.isNullish = true)
      (hs : x.channels = none ∨ s ∉ d.signatures) : Misuses w d x [.string s, f] (.unknownChannel s)
  | usage {args} (hne : args ≠ [])
      (hshape : ∀ s f, args = [.string s, f] → ¬ (w.isFunction f = true ∨ f.isNullish = true)) :
      Misuses w d x args .subscribeUsage

namespace Engine

variable {w : World} {cx : ContextId} {key : ClassKey} {info : CallInfo} {x : Handle} {ch : ChannelsId}
  {c : Channels} {s : String} {callback : Option ForeignValue}

theorem run_bridgeError {α : Type} (e : BridgeError) : (e.raise cx : Engine α).run w = w.throws cx e :=
  rfl

theorem findIdx?_of_unknown {signatures : List String} (hs : s ∉ signatures) :
    signatures.findIdx? (· = s) = none := by
  rw [List.findIdx?_eq_none_iff]
  exact fun s' hs' => decide_eq_false fun h => hs (h ▸ hs')

/-- Subscribing to a signature that is none of the channels changes nothing. -/
theorem run_subscribe_unknown (hc : w.channels? ch = some c) (hs : s ∉ c.signatures) :
    (subscribe cx ch s callback).run w = .ok (.error (.unknownChannel s)) w := by
  rw [subscribe, run_get_bind, hc]
  dsimp only
  rw [findIdx?_of_unknown hs]
  rfl

/-- Subscribing something that is no function changes nothing. -/
theorem run_subscribe_usage (hc : w.channels? ch = some c) (hs : s ∈ c.signatures) {f : ForeignValue}
    (hf : w.isFunction f = false) :
    (subscribe cx ch s (some f)).run w = .ok (.error .subscribeUsage) w := by
  obtain ⟨place, hplace⟩ : ∃ place, c.signatures.findIdx? (· = s) = some place := by
    rw [← Option.isSome_iff_exists, List.findIdx?_isSome]
    exact List.any_eq_true.2 ⟨s, hs, decide_eq_true rfl⟩
  have hcallback : (some f).any (!w.isFunction ·) = true := by
    simp [hf]
  rw [subscribe, run_get_bind, hc]
  dsimp only
  rw [hplace]
  dsimp only
  rw [if_pos hcallback]
  rfl

/-- A function takes a place among the channels. -/
theorem run_subscribe (hc : w.channels? ch = some c) {place : Nat}
    (hs : c.signatures.findIdx? (· = s) = some place) {f : ForeignValue} (hf : w.isFunction f = true)
    {home i} (hb : w.bridge? cx = some (home, i)) : (subscribe cx ch s (some f)).run w =
      .ok (.ok ()) (w.subscribing ch place home i.nextSlot (some f)) := by
  have hcallback : (some f).any (!w.isFunction ·) = false := by
    simp [hf]
  rw [subscribe, run_get_bind, hc]
  dsimp only
  rw [hs]
  dsimp only
  rw [hcallback, if_neg Bool.false_ne_true, run_bind_of_ok (run_bridge hb)]
  rfl

end Engine

namespace World

variable {w : World} {cx : ContextId} {key : ClassKey} {info : CallInfo} {x : Handle} {ch : ChannelsId}

/-- The channels of an instance are there, and are those of its class. -/
theorem Equipped.channels (h : w.Equipped) {v : ForeignValue} (hx : w.handleFor cx key v = .ok x)
    (hch : x.channels = some ch) :
    ∃ c, w.channels? ch = some c ∧ c.Covers (w.plans.descriptor key) := by
  cases v with
  | object id =>
    obtain ⟨o, hid, -, -, -, hhandle, rfl⟩ := Engine.bound_of_handleFor hx
    exact h _ _ _ hhandle hch
  | _ => cases hx

/-- **A call of `on` that is refused** throws, and does nothing else. -/
theorem Misuses.run_on {e : BridgeError} (h : w.Misuses (w.plans.descriptor key) x info.args e)
    (hw : w.Equipped) (hx : w.handleFor cx key info.receiver = .ok x) (run : Runner) :
    (Engine.runMember run cx key .on info).run w = w.throws cx e := by
  rw [Engine.runMember, Engine.onMember, Engine.run_bind_of_ok (Engine.run_receiver hx),
    Engine.run_get_bind]
  generalize info.args = args at h
  cases h with
  | @unknown s f hf hs =>
    dsimp only
    rw [if_pos ((Bool.or_eq_true_iff ..).2 hf)]
    cases hch : x.channels with
    | none => rfl
    | some ch =>
      obtain ⟨c, hc, hcovers⟩ := hw.channels hx hch
      have hunknown : s ∉ c.signatures := by
        rw [hcovers.signatures]
        exact hs.resolve_left (by simp [hch])
      dsimp only
      rw [Engine.run_bind_of_ok (Engine.run_subscribe_unknown hc hunknown)]
      exact Engine.run_bridgeError _
  | usage hne hshape =>
    split
    · exact absurd rfl hne
    · next s f =>
      have hf : ¬ (w.isFunction f || f.isNullish) = true :=
        fun h => hshape s f rfl ((Bool.or_eq_true_iff ..).1 h)
      rw [if_neg hf]
      exact Engine.run_bridgeError _
    · exact Engine.run_bridgeError _

/-! ## What channels do -/

/-- **The subscription of a function to a signature**: it takes the place of the event, hears the firings of
the index of this event from then on, and has heard nothing yet. -/
structure Subscribed (w : World) (cx : ContextId) (ch : ChannelsId) (k index : Nat)
    (home : InstallationId) (slot : Nat) (f : ForeignValue) (w' : World) : Prop where
  channels : ∃ c, w.channels? ch = some c ∧
    (w.setSubscriber ch k home slot (some f)).1.subscriber? ch index = some (c.context, ⟨home, slot⟩) ∧
    ∀ w₂, Moves (w.setSubscriber ch k home slot (some f)).1 w₂ →
      w₂.Routes ch index c.context ⟨home, slot⟩ f
  silent : ∀ cx, (w.setSubscriber ch k home slot (some f)).1.shots cx ⟨home, slot⟩ = [] ∧
    (w.setSubscriber ch k home slot (some f)).1.firings cx ⟨home, slot⟩ = []
  /-- All that happens besides is that callbacks which no subscription wants are let go of. -/
  moves : Moves (w.setSubscriber ch k home slot (some f)).1 w'

/-- **How channels are listed and subscribed to.** -/
structure Channelled (w : World) : Prop where
  /-- `on` lists the signatures of the events, in the order of declaration. -/
  listed : ∀ {cx key info x}, w.handleFor cx key info.receiver = .ok x → info.args = [] → ∀ run,
    (Engine.runMember run cx key .on info).run w = .ok (.object ⟨w.objects.next⟩) (w.adding
      { context := cx, kind := .array ((w.plans.descriptor key).signatures.map .string) })
  /-- The description of the class lists the same. -/
  documented : ∀ key, ∃ fields,
    (w.plans.descriptor key).document ClassKey.typeName = .record fields ∧
      fields.lookup "events" = some (.texts (w.plans.descriptor key).signatures)
  /-- The channels of an instance list the same, and each has the index of its event. -/
  carried : ∀ {cx key v x ch}, w.handleFor cx key v = .ok x → x.channels = some ch →
    ∃ c fields, w.channels? ch = some c ∧ c.Covers (w.plans.descriptor key) ∧
      Session.handleState w x = .record fields ∧
      fields.lookup "events" = some (.texts (w.plans.descriptor key).signatures)
  /-- Channels that are connected for a class list the same. -/
  connected : ∀ {cx d source ch w'}, (Engine.connect cx d source).run w = .ok ch w' →
    ∃ c, w'.channels? ch = some c ∧ c.source = source ∧ c.Covers d
  /-- An instance that is made has channels if its class has events and it has a source of them. -/
  made : ∀ {cx key own inst prototype w'} {objects : Store Object},
    w.objects = objects.insert { context := cx, prototype } →
    (Engine.attachNew cx key inst own ⟨objects.next⟩).run w = .ok () w' →
    ∃ x, w'.handleFor cx key (.object ⟨objects.next⟩) = .ok x ∧
      w'.Connected (w.plans.descriptor key) x
  /-- Where the signatures differ, a function that is subscribed to the signature of an event hears the
  firings of this event, and no others. -/
  subscribed : ∀ {cx key info x ch k index m home i f}, w.handleFor cx key info.receiver = .ok x →
    x.channels = some ch → (w.plans.descriptor key).signatures.Nodup →
    (w.plans.descriptor key).events[k]? = some (index, m) →
    info.args = [.string (m.signature ClassKey.typeName), f] → w.isFunction f = true →
    w.bridge? cx = some (home, i) → ∃ w',
      (∀ run, (Engine.runMember run cx key .on info).run w = .ok .undefined w') ∧
      (Engine.subscribe cx ch (m.signature ClassKey.typeName) (some f)).run w = .ok (.ok ()) w' ∧
      w.Subscribed cx ch k index home i.nextSlot f w'
  /-- A call of `on` with other arguments throws, and all is as it was but for the error. -/
  refused : ∀ {cx key info x e}, w.handleFor cx key info.receiver = .ok x →
    w.Misuses (w.plans.descriptor key) x info.args e → ∀ run,
      (Engine.runMember run cx key .on info).run w = w.throws cx e ∧ w.Spares (w.adding (e.object cx))
  /-- Channels refuse a signature that is not theirs, and what is no function, and all is as it was. -/
  declined : ∀ {cx ch c s callback}, w.channels? ch = some c →
    (s ∉ c.signatures → (Engine.subscribe cx ch s callback).run w = .ok (.error (.unknownChannel s)) w) ∧
    ∀ f, s ∈ c.signatures → w.isFunction f = false →
      (Engine.subscribe cx ch s (some f)).run w = .ok (.error .subscribeUsage) w

theorem Equipped.carried (h : w.Equipped) {v : ForeignValue} (hx : w.handleFor cx key v = .ok x)
    (hch : x.channels = some ch) : ∃ c fields, w.channels? ch = some c ∧
      c.Covers (w.plans.descriptor key) ∧ Session.handleState w x = .record fields ∧
      fields.lookup "events" = some (.texts (w.plans.descriptor key).signatures) := by
  obtain ⟨c, hc, hcovers⟩ := h.channels hx hch
  refine ⟨c, _, hc, hcovers, rfl, ?_⟩
  have hfound : x.channels.bind w.channels? = some c := by
    rw [hch]
    exact hc
  rw [hfound, ← hcovers.signatures]
  rfl

/-- Where the signatures differ, the place of a signature is the place of its event. -/
theorem findIdx?_signature {d : TypeDescriptor} (hn : d.signatures.Nodup) {k index : Nat}
    {m : MethodDescriptor} (hk : d.events[k]? = some (index, m)) :
    d.signatures.findIdx? (· = m.signature ClassKey.typeName) = some k := by
  rw [findIdx?_eq_some_iff_of_nodup hn, ← TypeDescriptor.channels_eq_signatures, TypeDescriptor.channels,
    List.getElem?_map, hk]
  rfl

theorem subscribed_of_covers (h : Reachable w) {c : Channels} {d : TypeDescriptor}
    (hc : w.channels? ch = some c) (hcovers : c.Covers d) {k index : Nat} {m : MethodDescriptor}
    (hk : d.events[k]? = some (index, m)) {home : InstallationId} {i : Installation}
    (hb : w.bridge? cx = some (home, i)) (f : ForeignValue) :
    w.Subscribed cx ch k index home i.nextSlot f (w.subscribing ch k home i.nextSlot (some f)) := by
  have hindex : c.indices[k]? = some index := by
    rw [hcovers.indices, List.getElem?_map, hk]
    rfl
  have hnodup : c.indices.Nodup := hcovers.indices ▸ TypeDescriptor.nodup_indices
  have hroom : k < c.subscribers.length :=
    hcovers.room ▸ (List.getElem?_eq_some_iff.1 hk).1
  obtain ⟨hnew, hsilent, hroutes⟩ := h.routes hb hc hindex hnodup hroom f
  have hm : Move w (w.setSubscriber ch k home i.nextSlot (some f)).1 := .setSubscriber ch k (some f) hb
  have hreleased : Passive (w.setSubscriber ch k home i.nextSlot (some f)).1
    (w.subscribing ch k home i.nextSlot (some f)) := Releases.release _ _
  exact ⟨⟨c, hc, hnew, hroutes⟩, hsilent, (hreleased (h.moves (.single hm))).1⟩

/-- **Channels are listed and subscribed to in this way** in every equipped world that a run leads to. -/
theorem Equipped.channelled (hw : w.Equipped) (h : Reachable w) : w.Channelled where
  listed hx ha run := by
    rw [← TypeDescriptor.channels_eq_signatures]
    exact Engine.run_on_list run hx ha
  documented _ := TypeDescriptor.document_events
  carried hx hch := hw.carried hx hch
  connected hrun := by
    obtain ⟨_, _, c, rfl, rfl, hsource, hi, hs, hn⟩ := Engine.connect_ok hrun
    have hroom : c.subscribers.length = _ := (congrArg List.length hn).trans (List.length_map _)
    refine ⟨c, ?_, hsource, hi, hs.trans TypeDescriptor.channels_eq_signatures, hroom⟩
    rw [channels?, Store.get?_insert, if_pos rfl]
  made {cx key own inst prototype w' objects} ho hrun := by
    have hmade := instantiated (u := { w with objects }) hrun ho rfl rfl
    exact hmade.handle
  subscribed {cx key info x ch k index m home i f} hx hch hn hk ha hf hb := by
    obtain ⟨c, hc, hcovers⟩ := hw.channels hx hch
    have hplace : c.signatures.findIdx? (· = m.signature ClassKey.typeName) = some k := by
      rw [hcovers.signatures]
      exact findIdx?_signature hn hk
    have hlistener : Engine.listener? w f = some f := if_pos hf
    refine ⟨w.subscribing ch k home i.nextSlot (some f), fun run => ?_,
      Engine.run_subscribe hc hplace hf hb, subscribed_of_covers h hc hcovers hk hb f⟩
    have hrun := Engine.run_on_subscribe run hx ha (.inl hf) hch hc hplace hb
    rwa [hlistener] at hrun
  refused hx hm run := ⟨hm.run_on hw hx run, w.spares_adding _⟩
  declined hc := ⟨Engine.run_subscribe_unknown hc, fun _ hs hf => Engine.run_subscribe_usage hc hs hf⟩

end World

/-! ## The law -/

/-- **Channels are listed and subscribed to in this way in every session**: between its steps, and wherever a
script takes a step in the course of one.  Handles keep the channels that they have. -/
theorem Session.lists_and_routes (plans : Plans) :
    (∀ ss, let w := (steps { plans } ss).2
      (w.OfSession ∧ Reachable w ∧ w.Rests) ∧ w.Equipped ∧ ∀ ss', w.Outfits (steps w ss').2) ∧
    (∀ n frame s (w : World), Reachable w → w.Equipped →
      let w' := (runStep (runner n) frame s).after w
      (Reachable w' ∧ Resumes w w') ∧ w'.Equipped ∧ w.Outfits w') ∧
    ∀ w, Reachable w → w.Equipped → w.Channelled := by
  refine ⟨fun ss => ?_, fun n frame s w h hw => ?_, fun w h hw => hw.channelled h⟩
  · have hsession : (steps { plans } ss).2.OfSession := ⟨plans, ss, rfl⟩
    exact ⟨⟨hsession, reachable_session hsession⟩, equipped plans ss,
      fun ss' => Steady.steps (fun _ _ _ => .of_eq rfl rfl) _ ss'⟩
  · have hactive : Conserves Active (runStep (runner n) frame s) := Conserves.runStep (runs n)
    have houtfits : Conserves Outfits (runStep (runner n) frame s) := Conserves.runStep (runs n)
    obtain ⟨hm, hresumes⟩ := hactive w h
    exact ⟨⟨h.moves hm, hresumes⟩, (houtfits w).equipped hw, houtfits w⟩

/-! ## Firings that are on their way -/

namespace Overtaking

/-! An event is fired at its subscriber, and before that is delivered another bridge is installed, and another
event gets a subscriber. -/

def channels : Channels where
  context := ⟨0⟩
  indices := [0, 1]
  signatures := ["opened()", "closed()"]
  subscribers := [none, none]
  source := ⟨0⟩
  connection := ⟨0⟩
  installation := ⟨0⟩

def connected : World :=
  { World.hosted with channels := World.hosted.channels.insert channels }

def fired : World :=
  ((connected.setSubscriber ⟨0⟩ 0 ⟨0⟩ 1 (some (.object ⟨1⟩))).1.fire ⟨0⟩ 0 []).1

def subscribed : World :=
  ((fired.install ⟨0⟩ .base).setSubscriber ⟨0⟩ 1 ⟨1⟩ 1 (some (.object ⟨2⟩))).1

theorem reachable_subscribed : Reachable subscribed := by
  have hb : World.hosted.bridge? ⟨0⟩ = some (⟨0⟩, { registry := .base }) := rfl
  have hconnect : Move World.hosted connected := .connect hb (by simp [channels])
  have hb : connected.bridge? ⟨0⟩ = some (⟨0⟩, { registry := .base }) := rfl
  have hset : Move connected (connected.setSubscriber ⟨0⟩ 0 ⟨0⟩ 1 (some (.object ⟨1⟩))).1 :=
    .setSubscriber ⟨0⟩ 0 (some (.object ⟨1⟩)) hb
  have hfire : Moves connected fired := .trans (.single hset) (Moves.fire _ ⟨0⟩ 0 [])
  have hinstall : Move fired (fired.install ⟨0⟩ .base) := .install .base rfl
  have hb : (fired.install ⟨0⟩ .base).bridge? ⟨0⟩ = some (⟨1⟩, { registry := .base }) := rfl
  have hsubscribe : Move (fired.install ⟨0⟩ .base) subscribed :=
    .setSubscriber ⟨0⟩ 1 (some (.object ⟨2⟩)) hb
  have h := (Relation.ReflTransGen.single hconnect).trans hfire
  exact reachable_hosted.moves ((h.tail hinstall).tail hsubscribe)

end Overtaking

/-- **A firing is heard by a subscriber of another event** if another bridge was installed while it was on its
way: nothing was fired at the second subscription, and the firing of the first event is prepared for it. -/
theorem misrouted_after_install : Reachable Overtaking.subscribed ∧
    Overtaking.subscribed.subscriber? ⟨0⟩ 1 = some (⟨0⟩, ⟨⟨1⟩, 1⟩) ∧
    Overtaking.subscribed.firings ⟨0⟩ ⟨⟨1⟩, 1⟩ = [] ∧
    Overtaking.subscribed.firings ⟨0⟩ ⟨⟨0⟩, 1⟩ = [[]] ∧
    ∃ w, Overtaking.subscribed.take ⟨0⟩ = some (.event ⟨⟨0⟩, 1⟩ [], w) ∧ ∀ run, ∃ w',
      (Engine.prepareEvent run ⟨0⟩ ⟨⟨0⟩, 1⟩ []).run w = .ok (some (.object ⟨2⟩, [])) w' :=
  ⟨Overtaking.reachable_subscribed, rfl, rfl, rfl, _, rfl, fun _ => ⟨_, rfl⟩⟩

end Isthmus
