import Isthmus.Proofs.Run.Delivery

/-!
# Proofs/Run/Routing — which firings a subscription hears

An event is fired at a set of channels by the index of its method, and goes to the subscriber whose place that
index has.  A subscription is a new token in one place, and no move puts the token anywhere else.  So from
then on the token is found by one index of one set of channels only, and the events that are queued for it are
the firings of this index.

* `Move.subscriber?` — a subscription that was made is not found by an index that did not find it before.
* `Move.shots` — only firings that find it take it, and only these queue events for it.
* `Reachable.routes` — what a subscription hears from then on, whatever else happens.
-/

namespace Isthmus

open History

variable {w w' : World} {cx : ContextId} {id : ChannelsId} {event : Nat} {t : Token}
  {args : List NativeValue}

/-! ## Where a subscription is found -/

namespace World

theorem subscriber?_eq_some_iff : w.subscriber? id event = some (cx, t) ↔
    ∃ c place, w.channels? id = some c ∧ c.context = cx ∧
      c.indices.findIdx? (· = event) = some place ∧ c.subscribers[place]? = some (some t) := by
  constructor
  · intro h
    obtain ⟨c, hc, h⟩ := Option.bind_eq_some_iff.1 h
    obtain ⟨place, hp, h⟩ := Option.bind_eq_some_iff.1 h
    obtain ⟨token, ht, h⟩ := Option.bind_eq_some_iff.1 h
    cases h
    exact ⟨c, place, hc, rfl, hp, Option.join_eq_some_iff.1 ht⟩
  · rintro ⟨c, place, hc, rfl, hp, ht⟩
    rw [subscriber?, hc, Option.bind_eq_bind, Option.bind_some, hp]
    simp [ht]

theorem subscriber?_congr (h : w'.channels? id = w.channels? id) (event : Nat) :
    w'.subscriber? id event = w.subscriber? id event := by
  rw [subscriber?, subscriber?, h]

end World

/-- The place of an index, where no index comes twice. -/
theorem findIdx?_eq_some_iff_of_nodup {α : Type} [DecidableEq α] {l : List α} (hn : l.Nodup) {a : α}
    {k : Nat} : l.findIdx? (· = a) = some k ↔ l[k]? = some a := by
  rw [List.findIdx?_eq_some_iff_getElem, List.getElem?_eq_some_iff]
  constructor
  · rintro ⟨hk, ha, -⟩
    exact ⟨hk, of_decide_eq_true ha⟩
  · rintro ⟨hk, rfl⟩
    refine ⟨hk, decide_eq_true rfl, fun j hj hja => ?_⟩
    exact Nat.ne_of_lt hj (hn.getElem_inj_iff.1 (of_decide_eq_true hja))

/-- **A subscription that was made is found where it was found before**, if at all. -/
theorem Move.subscriber? (hm : Move w w') (hr : Reachable w) {f : ForeignValue}
    (hf : .subscribed t f ∈ w.history) (h : w'.subscriber? id event = some (cx, t)) :
    w.subscriber? id event = some (cx, t) := by
  obtain ⟨c', place, hc', hcx, hp, ht⟩ := World.subscriber?_eq_some_iff.1 h
  have same (hc : w.channels? id = some c') : w.subscriber? id event = some (cx, t) :=
    World.subscriber?_eq_some_iff.2 ⟨c', place, hc, hcx, hp, ht⟩
  cases hm.stirs with
  | still _ hc => exact same ((World.channels?_congr hc id).symm.trans hc')
  | installed _ hw =>
    subst hw
    exact same hc'
  | @connected c i _ hs hw =>
    subst hw
    rw [World.channels?, Store.get?_insert] at hc'
    split at hc'
    · cases hc'
      cases hs _ (List.mem_of_getElem? ht)
    · exact same hc'
  | @switched _ home i c key place' callback hb hc hw =>
    rw [World.channels?, hw, World.setSubscriber_channels hc, Store.get?_modify] at hc'
    split at hc'
    · obtain ⟨c₀, hc₀, rfl⟩ := Option.map_eq_some_iff.1 hc'
      refine World.subscriber?_eq_some_iff.2 ⟨c₀, place, hc₀, hcx, hp, ?_⟩
      have ht : (c₀.subscribers.set place' (callback.map fun _ => ⟨home, i.nextSlot⟩))[place]? =
        some (some t) := ht
      rw [List.getElem?_set] at ht
      split at ht
      · split at ht
        · -- the token that enters is a new one
          obtain ⟨g, -, rfl⟩ := Option.map_eq_some_iff.1 (Option.some.inj ht)
          have hlt := hr.slotted.subscribed_lt hf (World.bridge?_eq_some.1 hb).2
          exact absurd hlt (Nat.lt_irrefl _)
        · cases ht
      · exact ht
    · exact same hc'
  | erased _ hw =>
    rw [World.channels?, hw, World.prune_channels] at hc'
    have he : (w.channels.erase _).get? id.index = some c' := hc'
    rw [Store.get?_erase] at he
    split at he
    · cases he
    · exact same he

/-- **A subscription lasts** until the subscriber in its place changes or its channels go. -/
theorem Move.lasts (hm : Move w w') (h : w.subscriber? id event = some (cx, t)) :
    w'.subscriber? id event = some (cx, t) ∨ w'.channels? id = none ∨
      ∃ c place cx' home i callback, w.channels? id = some c ∧
        c.indices.findIdx? (· = event) = some place ∧ w.bridge? cx' = some (home, i) ∧
          w' = (w.setSubscriber id place home i.nextSlot callback).1 := by
  obtain ⟨c, place, hc, hcx, hp, ht⟩ := World.subscriber?_eq_some_iff.1 h
  have same (hc' : w'.channels? id = w.channels? id) : w'.subscriber? id event = some (cx, t) :=
    (World.subscriber?_congr hc' event).trans h
  cases hm.stirs with
  | still _ hc' => exact .inl (same (World.channels?_congr hc' id))
  | installed _ hw =>
    refine .inl (same ?_)
    rw [hw]
    rfl
  | connected _ _ hw =>
    refine .inl (same ?_)
    rw [hw, World.channels?, Store.get?_insert, if_neg (Nat.ne_of_lt (Store.lt_next_of_get? hc))]
    rfl
  | @switched cx' home i c' key place' callback hb hc' hw =>
    by_cases hkey : id = key
    · subst hkey
      by_cases hplace : place' = place
      · subst hplace
        exact .inr (.inr ⟨c, place', cx', home, i, callback, hc, hp, hb, hw⟩)
      · -- another place of the same channels changes
        have hchannels : w'.channels? id = some { c with
            subscribers := c.subscribers.set place' (callback.map fun _ => ⟨home, i.nextSlot⟩) } := by
          rw [hw, World.channels?, World.setSubscriber_channels hc', Store.get?_modify, if_pos rfl]
          exact congrArg (Option.map _) hc
        refine .inl (World.subscriber?_eq_some_iff.2 ⟨_, place, hchannels, hcx, hp, ?_⟩)
        rw [List.getElem?_set_ne hplace]
        exact ht
    · refine .inl (same ?_)
      rw [hw, World.channels?, World.setSubscriber_channels hc', Store.get?_modify,
        if_neg fun h => hkey (congrArg ChannelsId.mk h)]
      rfl
  | @erased key c' _ hw =>
    have hchannels : w'.channels? id = (w.channels.erase key.index).get? id.index := by
      rw [hw, World.channels?, World.prune_channels]
      rfl
    rw [Store.get?_erase] at hchannels
    split at hchannels
    · exact .inr (.inl hchannels)
    · exact .inl (same hchannels)

/-! ## What is fired at a subscription -/

/-- The arguments of the events of one token, in the same order. -/
def Wake.argumentsFor (t : Token) (events : List (Token × List NativeValue)) : List (List NativeValue) :=
  (events.filter (·.1 = t)).map (·.2)

namespace Wake

@[simp] theorem argumentsFor_append (t : Token) (events more : List (Token × List NativeValue)) :
    argumentsFor t (events ++ more) = argumentsFor t events ++ argumentsFor t more := by
  simp [argumentsFor]

theorem argumentsFor_singleton (t t' : Token) (args : List NativeValue) :
    argumentsFor t [(t', args)] = if t' = t then [args] else [] := by
  by_cases ht : t' = t
  · simp [argumentsFor, ht]
  · simp [argumentsFor, ht]

theorem mem_argumentsFor {events : List (Token × List NativeValue)} :
    args ∈ argumentsFor t events ↔ (t, args) ∈ events := by
  rw [argumentsFor, List.mem_map]
  constructor
  · rintro ⟨⟨t', args'⟩, he, rfl⟩
    obtain ⟨he, ht⟩ := List.mem_filter.1 he
    exact of_decide_eq_true ht ▸ he
  · exact fun he => ⟨_, List.mem_filter.2 ⟨he, decide_eq_true rfl⟩, rfl⟩

theorem perm_argumentsFor {events more : List (Token × List NativeValue)} (h : events.Perm more)
    (t : Token) : (argumentsFor t events).Perm (argumentsFor t more) :=
  (h.filter _).map _

end Wake

namespace World

/-- The arguments with which firings for a context took a subscription, oldest first. -/
def shots (w : World) (cx : ContextId) (t : Token) : List (List NativeValue) :=
  Wake.argumentsFor t (aimed cx w.history)

/-- The arguments of the events that were queued at a context for a subscription, oldest first. -/
def firings (w : World) (cx : ContextId) (t : Token) : List (List NativeValue) :=
  Wake.argumentsFor t (w.eventsFor cx)

theorem mem_shots : args ∈ w.shots cx t ↔ .aimed cx t args ∈ w.history :=
  Wake.mem_argumentsFor.trans mem_aimed

theorem mem_firings : args ∈ w.firings cx t ↔ .sent cx (.event t args) ∈ w.history :=
  (Wake.mem_argumentsFor.trans Wake.mem_events).trans mem_sent

/-- A firing that begins has taken its subscription last. -/
theorem shots_aim (w : World) (c : ContextId) (t' : Token) (args : List NativeValue) :
    (w.aim c t' args).shots cx t = w.shots cx t ++ if c = cx ∧ t' = t then [args] else [] := by
  rw [shots, aim, aimed_aimed]
  by_cases hc : c = cx
  · rw [if_pos hc, Wake.argumentsFor_append, Wake.argumentsFor_singleton]
    simp only [hc, true_and]
    rfl
  · rw [if_neg hc, if_neg fun h => hc h.1, List.append_nil]
    rfl

theorem shots_launch (w : World) (before after : List Errand) (c : ContextId) (wake : Wake) :
    (w.launch before after c wake).1.shots cx t = w.shots cx t := by
  rw [shots, launch_aimed, shots]

/-- A firing that ends at an open loop has queued its event last. -/
theorem firings_launch (w : World) (before after : List Errand) (c : ContextId) (t' : Token)
    (args : List NativeValue) : (w.launch before after c (.event t' args)).1.firings cx t =
      w.firings cx t ++ if (w.loopOf c).isOpen ∧ c = cx ∧ t' = t then [args] else [] := by
  by_cases hc : c = cx
  · subst hc
    by_cases ho : (w.loopOf c).isOpen
    · rw [firings, launch_eventsFor ho, Wake.argumentsFor_append, Wake.argumentsFor_singleton, firings]
      simp only [ho, true_and]
    · rw [firings, eventsFor, launch_history_of_closed ho, if_neg fun h => ho h.1, List.append_nil]
      rfl
  · rw [firings, w.launch_eventsFor_of_ne _ _ _ hc, if_neg fun h => hc h.2.1, List.append_nil, firings]

/-- A firing that took another subscription does nothing to this one. -/
theorem Firing.other {c : ContextId} {t' : Token} (h : w.Firing c t' args w') (ht : t' ≠ t)
    (cx : ContextId) : w'.shots cx t = w.shots cx t ∧ w'.firings cx t = w.firings cx t := by
  cases h with
  | begins h => exact ⟨by rw [shots_aim, if_neg fun h => ht h.2, List.append_nil], rfl⟩
  | registers h => exact ⟨rfl, rfl⟩
  | ends h =>
    refine ⟨w.shots_launch .., ?_⟩
    rw [firings_launch, if_neg fun h => ht h.2.2, List.append_nil]

/-- A firing without interruption is made of three steps. -/
theorem fire_steps {c : ContextId} (h : w.subscriber? id event = some (c, t)) (args : List NativeValue) :
    ∃ w₁ w₂, w.Firing c t args w₁ ∧ w₁.Firing c t args w₂ ∧
      w₂.Firing c t args (w.fire id event args).1 := by
  refine ⟨w.aim c t args, (w.aim c t args).arm [] w.errands c (.event t args), .begins h,
    .registers rfl, ?_⟩
  rw [fire, h]
  exact .ends rfl

/-- A firing that finds a subscription queues one event for it. -/
theorem firings_fire (h : w.subscriber? id event = some (cx, t)) (ho : (w.loopOf cx).isOpen)
    (args : List NativeValue) : (w.fire id event args).1.shots cx t = w.shots cx t ++ [args] ∧
      (w.fire id event args).1.firings cx t = w.firings cx t ++ [args] := by
  have hh := fire_history_of_isOpen h ho args
  have hone : Wake.argumentsFor t [(t, args)] = [args] := by
    rw [Wake.argumentsFor_singleton, if_pos rfl]
  constructor
  · rw [shots, hh]
    change Wake.argumentsFor t (aimed cx (.aimed cx t args :: w.history)) = _
    rw [aimed_aimed, if_pos rfl, Wake.argumentsFor_append, hone, shots]
  · rw [firings, eventsFor, hh, sent_sent, if_pos rfl, Wake.events_append]
    exact (Wake.argumentsFor_append ..).trans (congrArg _ hone)

/-- A firing that does not find a subscription does nothing to it. -/
theorem firings_fire_of_ne (h : ∀ c, w.subscriber? id event ≠ some (c, t)) (args : List NativeValue)
    (cx : ContextId) : (w.fire id event args).1.shots cx t = w.shots cx t ∧
      (w.fire id event args).1.firings cx t = w.firings cx t := by
  cases hs : w.subscriber? id event with
  | none =>
    rw [fire, hs]
    exact ⟨rfl, rfl⟩
  | some s =>
    obtain ⟨c, t'⟩ := s
    have hne : t' ≠ t := fun ht => h c (ht ▸ hs)
    obtain ⟨w₁, w₂, h₁, h₂, h₃⟩ := fire_steps hs args
    obtain ⟨hs₁, hf₁⟩ := h₁.other hne cx
    obtain ⟨hs₂, hf₂⟩ := h₂.other hne cx
    obtain ⟨hs₃, hf₃⟩ := h₃.other hne cx
    exact ⟨hs₃.trans (hs₂.trans hs₁), hf₃.trans (hf₂.trans hf₁)⟩

end World

/-- **Only firings that find a subscription take it**, and only these queue events for it. -/
theorem Move.shots (hm : Move w w') (cx : ContextId) (t : Token) :
    (w'.shots cx t = w.shots cx t ∧ w'.firings cx t = w.firings cx t) ∨
      ∃ args, w.Firing cx t args w' := by
  obtain ⟨ha, he⟩ | ⟨t', args, hf⟩ := hm.firing cx
  · exact .inl ⟨congrArg (Wake.argumentsFor t) ha, congrArg (Wake.argumentsFor t) he⟩
  · by_cases ht : t' = t
    · subst ht
      exact .inr ⟨args, hf⟩
    · exact .inl (hf.other ht cx)

/-! ## What a subscription hears -/

/-- **How a subscription is heard of**: firings with one index, at one set of channels, take it as long as it
lasts, and each queues one event for it; nothing else does, and its callback is called with each of these. -/
structure World.Routes (w : World) (id : ChannelsId) (event : Nat) (cx : ContextId) (t : Token)
    (f : ForeignValue) : Prop where
  /-- No other index finds the subscription. -/
  found : ∀ {id' event' cx'}, w.subscriber? id' event' = some (cx', t) →
    id' = id ∧ event' = event ∧ cx' = cx
  /-- The subscription lasts until the subscriber in its place changes or its channels go. -/
  lasts : ∀ w', Move w w' → w.subscriber? id event = some (cx, t) →
    w'.subscriber? id event = some (cx, t) ∨ w'.channels? id = none ∨
      ∃ c place cx' home i callback, w.channels? id = some c ∧
        c.indices.findIdx? (· = event) = some place ∧ w.bridge? cx' = some (home, i) ∧
          w' = (w.setSubscriber id place home i.nextSlot callback).1
  /-- As long as it lasts, each firing of the index takes it, and queues its event if nothing comes between. -/
  fired : w.subscriber? id event = some (cx, t) → ∀ args,
    (w.aim cx t args).shots cx t = w.shots cx t ++ [args] ∧
      ((w.loopOf cx).isOpen → (w.fire id event args).1.shots cx t = w.shots cx t ++ [args] ∧
        (w.fire id event args).1.firings cx t = w.firings cx t ++ [args])
  /-- No firing of another index, and none at other channels, takes it or queues an event. -/
  others : ∀ id' event' args cx', ¬ (id' = id ∧ event' = event) →
    (w.fire id' event' args).1.shots cx' t = w.shots cx' t ∧
      (w.fire id' event' args).1.firings cx' t = w.firings cx' t
  /-- A step of a firing apart, no move takes it or queues an event. -/
  only : ∀ w', Move w w' → (w'.shots cx t = w.shots cx t ∧ w'.firings cx t = w.firings cx t) ∨
    ∃ args, w.Firing cx t args w'
  /-- Nothing of it reaches another context. -/
  elsewhere : ∀ cx', cx' ≠ cx → w.shots cx' t = [] ∧ w.firings cx' t = []
  /-- Each firing that took it has queued its event, or is about to. -/
  queued : (w.loopOf cx).isOpen →
    (w.shots cx t).Perm (w.firings cx t ++ Wake.argumentsFor t (w.begunFor cx))
  /-- Each event was heard, is being prepared, or is queued, and that once. -/
  once : (w.loopOf cx).isOpen → (w.firings cx t).Perm
    (Wake.argumentsFor t ((heard cx w.history).map fun e => (e.1, e.2.1)) ++
      Wake.argumentsFor t (preparing cx w.history) ++
        Wake.argumentsFor t (Wake.events (w.loopOf cx).queue))
  /-- They are heard in the order of queueing, unless one is taken while another one is being prepared. -/
  order : (w.loopOf cx).isOpen → OneByOne cx w.history → w.firings cx t =
    Wake.argumentsFor t ((heard cx w.history).map fun e => (e.1, e.2.1)) ++
      Wake.argumentsFor t (preparing cx w.history) ++
        Wake.argumentsFor t (Wake.events (w.loopOf cx).queue)
  /-- In a session the firings that took it were heard or are queued, in this order. -/
  session : w.OfSession → (w.loopOf cx).isOpen → w.shots cx t =
    Wake.argumentsFor t ((heard cx w.history).map fun e => (e.1, e.2.1)) ++
      Wake.argumentsFor t (Wake.events (w.loopOf cx).queue)
  /-- Where only one bridge was installed, each event that was heard called the callback, unless its
  arguments do not convert. -/
  called : ∀ {home registry}, .installed cx home registry ∈ w.history → bindings cx w.history = 1 →
    w.IsLocal home → ∀ args verdict, (t, args, verdict) ∈ heard cx w.history →
      Answered w cx registry t args verdict ∧ ∀ g values, verdict = .called g values → g = f

/-- A subscription that is found at one place only stays so. -/
theorem Reachable.found (h : Reachable w) {f : ForeignValue} (hf : .subscribed t f ∈ w.history)
    (hw : ∀ {id' event' cx'}, w.subscriber? id' event' = some (cx', t) →
      id' = id ∧ event' = event ∧ cx' = cx) (hm : Moves w w') :
    ∀ {id' event' cx'}, w'.subscriber? id' event' = some (cx', t) →
      id' = id ∧ event' = event ∧ cx' = cx := by
  induction hm with
  | refl => exact hw
  | @tail v v' hmoves hmove ih =>
    intro id' event' cx' hs
    exact ih (hmove.subscriber? (h.moves hmoves) ((Moves.history hmoves).subset hf) hs)

/-- A subscription that is found for one context only is not taken for others. -/
theorem Reachable.elsewhere (h : Reachable w) {f : ForeignValue} (hf : .subscribed t f ∈ w.history)
    (hw : ∀ {id' event' cx'}, w.subscriber? id' event' = some (cx', t) →
      id' = id ∧ event' = event ∧ cx' = cx) {c : ContextId} (hc : c ≠ cx) (hs : w.shots c t = [])
    (hm : Moves w w') : w'.shots c t = [] := by
  induction hm with
  | refl => exact hs
  | @tail v v' hmoves hmove ih =>
    obtain ⟨hsame, -⟩ | ⟨args, hfiring⟩ := hmove.shots c t
    · exact hsame.trans ih
    · cases hfiring with
      | begins hs => exact absurd (h.found hf hw hmoves hs).2.2 hc
      | registers => exact ih
      | ends => exact (v.shots_launch ..).trans ih

theorem Reachable.routes_of_found (h : Reachable w) {f : ForeignValue}
    (hf : .subscribed t f ∈ w.history)
    (hw : ∀ {id' event' cx'}, w.subscriber? id' event' = some (cx', t) →
      id' = id ∧ event' = event ∧ cx' = cx) (hs : ∀ c, c ≠ cx → w.shots c t = []) :
    w.Routes id event cx t f := by
  have horder (ho : (w.loopOf cx).isOpen) (hone : OneByOne cx w.history) : w.firings cx t =
      Wake.argumentsFor t ((heard cx w.history).map fun e => (e.1, e.2.1)) ++
        Wake.argumentsFor t (preparing cx w.history) ++
          Wake.argumentsFor t (Wake.events (w.loopOf cx).queue) := by
    rw [World.firings, World.eventsFor, h.queued.sent_eq cx ho, Wake.events_append,
      (h.decided.inOrder cx hone).2, Wake.argumentsFor_append, Wake.argumentsFor_append]
  constructor
  case found => exact hw
  case lasts => exact fun w' hm hs => hm.lasts hs
  case fired =>
    intro hs args
    refine ⟨?_, fun ho => World.firings_fire hs ho args⟩
    rw [World.shots_aim, if_pos ⟨rfl, rfl⟩]
  case others =>
    intro id' event' args cx' hne
    refine World.firings_fire_of_ne (fun cx'' hs => hne ?_) args cx'
    obtain ⟨hid, hevent, -⟩ := hw hs
    exact ⟨hid, hevent⟩
  case only => exact fun w' hm => hm.shots cx t
  case elsewhere =>
    intro c hc
    refine ⟨hs c hc, List.eq_nil_iff_forall_not_mem.2 fun args hargs => ?_⟩
    have hshot := World.mem_shots.2 (h.aimed_of_sent (World.mem_firings.1 hargs))
    rw [hs c hc] at hshot
    cases hshot
  case queued =>
    intro ho
    obtain ⟨plans, hmoves⟩ := h
    obtain ⟨since, more, ha, he, hperm⟩ := Moves.queues ⟨plans, .refl⟩ hmoves ho
    have ha : aimed cx w.history = since := ha
    have he : w.eventsFor cx = more := he
    rw [World.shots, World.firings, ha, he, ← Wake.argumentsFor_append]
    exact Wake.perm_argumentsFor hperm t
  case once =>
    intro ho
    rw [World.firings, World.eventsFor, h.queued.sent_eq cx ho, Wake.events_append,
      ← Wake.argumentsFor_append, ← Wake.argumentsFor_append]
    exact Wake.perm_argumentsFor ((h.decided.perm cx).append_right _) t
  case order => exact horder
  case session =>
    intro hsession ho
    obtain ⟨-, hrests⟩ := reachable_session hsession
    have horder := horder ho (hrests.oneByOne cx)
    rw [hrests.preparing] at horder
    rw [World.shots, hrests.prompt cx ho]
    exact horder.trans (congrArg (· ++ _) (List.append_nil _))
  case called =>
    intro home registry hi h1 hl args verdict hheard
    have hanswered := h.answered hi h1 hl (mem_heard.1 hheard)
    refine ⟨hanswered, ?_⟩
    rintro g values rfl
    cases hanswered with
    | called _ hs _ => exact h.slotted.subscribed_unique hs hf

/-- **A new subscription routes**: it is found by the index in its place, nothing was fired at it yet, and
from then on it hears the firings of this index, and no others. -/
theorem Reachable.routes (h : Reachable w) {c : Channels} {k : Nat} {cx₀ : ContextId}
    {home : InstallationId} {i : Installation} (hb : w.bridge? cx₀ = some (home, i))
    (hc : w.channels? id = some c) (hk : c.indices[k]? = some event) (hn : c.indices.Nodup)
    (hroom : k < c.subscribers.length) (f : ForeignValue) :
    let w₁ := (w.setSubscriber id k home i.nextSlot (some f)).1
    w₁.subscriber? id event = some (c.context, ⟨home, i.nextSlot⟩) ∧
      (∀ cx, w₁.shots cx ⟨home, i.nextSlot⟩ = [] ∧ w₁.firings cx ⟨home, i.nextSlot⟩ = []) ∧
      ∀ w₂, Moves w₁ w₂ → w₂.Routes id event c.context ⟨home, i.nextSlot⟩ f := by
  intro w₁
  have hm : Move w w₁ := .setSubscriber id k (some f) hb
  have hfresh {g} (hg : .subscribed ⟨home, i.nextSlot⟩ g ∈ w.history) : False :=
    Nat.lt_irrefl _ (h.slotted.subscribed_lt hg (World.bridge?_eq_some.1 hb).2)
  have hchannels (id' : ChannelsId) : w₁.channels? id' = if id'.index = id.index then
      some { c with subscribers := c.subscribers.set k (some ⟨home, i.nextSlot⟩) }
      else w.channels? id' := by
    rw [World.channels?, World.setSubscriber_channels hc, Store.get?_modify]
    split
    · next hkey =>
      obtain rfl : id' = id := congrArg ChannelsId.mk hkey
      exact congrArg (Option.map _) hc
    · rfl
  have hplace : c.indices.findIdx? (· = event) = some k := (findIdx?_eq_some_iff_of_nodup hn).2 hk
  have hnew : w₁.subscriber? id event = some (c.context, ⟨home, i.nextSlot⟩) := by
    refine World.subscriber?_eq_some_iff.2 ⟨_, k, (hchannels id).trans (if_pos rfl), rfl, hplace, ?_⟩
    rw [List.getElem?_set_self hroom]
  have hfound {id' event' cx'} (hs : w₁.subscriber? id' event' = some (cx', ⟨home, i.nextSlot⟩)) :
      id' = id ∧ event' = event ∧ cx' = c.context := by
    -- no place but the one that was set has the new token
    have hnone : w.subscriber? id' event' ≠ some (cx', ⟨home, i.nextSlot⟩) := fun hs => by
      obtain ⟨g, hg⟩ := h.rooted.token (.of_subscriber? hs)
      exact hfresh hg
    obtain ⟨c', place, hc', rfl, hp, ht⟩ := World.subscriber?_eq_some_iff.1 hs
    rw [hchannels] at hc'
    split at hc'
    · next hkey =>
      obtain rfl : id' = id := congrArg ChannelsId.mk hkey
      cases hc'
      by_cases hkp : k = place
      · subst hkp
        have hevent : c.indices[k]? = some event' := (findIdx?_eq_some_iff_of_nodup hn).1 hp
        exact ⟨rfl, Option.some.inj (hevent.symm.trans hk), rfl⟩
      · rw [List.getElem?_set_ne hkp] at ht
        exact absurd (World.subscriber?_eq_some_iff.2 ⟨c, place, hc, rfl, hp, ht⟩) hnone
    · exact absurd (World.subscriber?_eq_some_iff.2 ⟨c', place, hc', rfl, hp, ht⟩) hnone
  have hsubscribed : .subscribed ⟨home, i.nextSlot⟩ f ∈ w₁.history := World.mem_subscribed hc ..
  have hr₁ := h.moves (.single hm)
  -- a token that is new was never fired at
  have hshots (cx : ContextId) : w₁.shots cx ⟨home, i.nextSlot⟩ = [] := by
    refine List.eq_nil_iff_forall_not_mem.2 fun args hargs => ?_
    obtain ha | ha := hm.arises (World.mem_shots.1 hargs)
    · obtain ⟨⟨g, hg⟩, -⟩ := h.rooted.aimed ha
      exact hfresh hg
    · cases ha with
      | aimed hs _ =>
        obtain ⟨g, hg⟩ := h.rooted.token (.of_subscriber? hs)
        exact hfresh hg
  refine ⟨hnew, fun cx => ⟨hshots cx, ?_⟩, fun w₂ hmoves => ?_⟩
  · refine List.eq_nil_iff_forall_not_mem.2 fun args hargs => ?_
    have hshot := World.mem_shots.2 (hr₁.aimed_of_sent (World.mem_firings.1 hargs))
    rw [hshots cx] at hshot
    cases hshot
  · have hmem := hmoves.history.subset hsubscribed
    refine (hr₁.moves hmoves).routes_of_found hmem (hr₁.found hsubscribed hfound hmoves) fun c' hc' => ?_
    exact hr₁.elsewhere hsubscribed hfound hc' (hshots c') hmoves

end Isthmus
