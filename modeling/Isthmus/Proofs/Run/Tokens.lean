import Isthmus.Proofs.Run.Bridges

/-!
# Proofs/Run/Tokens — which subscriptions are wanted

A subscription is wanted as long as there is a token of it: in a channel, or on its way in a firing or in a
wake.

* `Move.stirs` — what a move can make of channels and subscriptions.
* `Reachable.flights` — the tokens on their way are those that the history counts.
* `Move.stages` — what a move can make of events.
* `Reachable.kept` — the callback of a token is kept.
-/

namespace Isthmus

open History

/-! ## Tokens -/

/-- The wake carries the token. -/
def Wake.isFor (t : Token) : Wake → Bool
  | .event t' _ => t' = t
  | _ => false

/-- The tokens of a wake are those of its event. -/
theorem Wake.mem_tokens {t : Token} {wake : Wake} : t ∈ wake.tokens ↔ wake.isFor t := by
  cases wake with
  | event t' args =>
    rw [tokens, List.mem_singleton, isFor, decide_eq_true_eq]
    exact eq_comm
  | settle slot status v => exact iff_of_false List.not_mem_nil Bool.false_ne_true
  | script label body => exact iff_of_false List.not_mem_nil Bool.false_ne_true

namespace World

variable {w w' : World} {t : Token}

/-- The token is in a channel. -/
def Subscribes (w : World) (t : Token) : Prop :=
  ∃ id c, w.channels? id = some c ∧ some t ∈ c.subscribers

/-- How many firings and wakes on their way carry the token. -/
def airborne (w : World) (t : Token) : Nat :=
  w.loops.total (fun l => l.queue.countP (Wake.isFor t)) + w.delivering.countP (fun d => d.2.isFor t) +
    w.begun.countP (·.2.1 = t)

/-- A token is on its way when it is queued, being delivered or held by a firing that has begun. -/
theorem airborne_pos : 0 < w.airborne t ↔
    (∃ l ∈ w.loops.values, ∃ wake ∈ l.queue, t ∈ wake.tokens) ∨
      (∃ d ∈ w.delivering, t ∈ d.2.tokens) ∨ ∃ e ∈ w.begun, e.2.1 = t := by
  have hbegun : (∃ e ∈ w.begun, e.2.1 = t) ↔ 0 < w.begun.countP (·.2.1 = t) := by
    simp only [List.countP_pos_iff, decide_eq_true_eq]
  simp only [Wake.mem_tokens]
  rw [hbegun]
  constructor
  · intro h
    by_cases hl : 0 < w.loops.total fun l => l.queue.countP (Wake.isFor t)
    · obtain ⟨key, l, hl, hc⟩ := Store.exists_of_total_pos hl
      exact .inl ⟨l, Store.mem_values.2 ⟨key, hl⟩, List.countP_pos_iff.1 hc⟩
    · by_cases hd : 0 < w.delivering.countP fun d => d.2.isFor t
      · exact .inr (.inl (List.countP_pos_iff.1 hd))
      · exact .inr (.inr (by rw [airborne] at h; omega))
  · rintro (⟨l, hl, h⟩ | h | h)
    · obtain ⟨key, hl⟩ := Store.mem_values.1 hl
      have := List.countP_pos_iff.2 h
      have := Store.le_total (fun l : Loop => l.queue.countP (Wake.isFor t)) hl
      rw [airborne]
      omega
    · have := List.countP_pos_iff.2 h
      rw [airborne]
      omega
    · rw [airborne]
      omega

/-- The tokens of errands are those of the events that firings have begun to queue. -/
theorem mem_tokens_errands : (∃ e ∈ w.errands, t ∈ e.tokens) ↔ ∃ e ∈ w.begun, e.2.1 = t := by
  constructor
  · rintro ⟨e, he, ht⟩
    cases e with
    | aimed cx t' args =>
      exact ⟨(cx, t', args), List.mem_filterMap.2 ⟨_, he, rfl⟩, (List.mem_singleton.1 ht).symm⟩
    | armed cx wake =>
      cases wake with
      | event t' args =>
        exact ⟨(cx, t', args), List.mem_filterMap.2 ⟨_, he, rfl⟩, (List.mem_singleton.1 ht).symm⟩
      | settle slot status v => exact absurd ht List.not_mem_nil
      | script label body => exact absurd ht List.not_mem_nil
  · rintro ⟨event, he, rfl⟩
    obtain ⟨e, he, hevent⟩ := List.mem_filterMap.1 he
    refine ⟨e, he, ?_⟩
    cases e with
    | aimed cx t' args =>
      cases hevent
      exact List.mem_singleton_self _
    | armed cx wake =>
      cases wake with
      | event t' args =>
        cases hevent
        exact List.mem_singleton_self _
      | settle slot status v => cases hevent
      | script label body => cases hevent

/-- **A subscription is wanted** as long as its token is in a channel or on its way. -/
theorem isSubscribed_iff : w.isSubscribed t ↔ w.Subscribes t ∨ 0 < w.airborne t := by
  have hsub : (∃ c ∈ w.channels.values, ∃ o ∈ c.subscribers, t ∈ o.toList) ↔ w.Subscribes t := by
    constructor
    · rintro ⟨c, hc, o, ho, ht⟩
      obtain ⟨key, hc⟩ := Store.mem_values.1 hc
      obtain rfl := Option.mem_toList.1 ht
      exact ⟨⟨key⟩, c, hc, ho⟩
    · rintro ⟨id, c, hc, ht⟩
      exact ⟨c, Store.mem_values.2 ⟨_, hc⟩, _, ht, Option.mem_toList.2 rfl⟩
  rw [isSubscribed, List.contains_iff_mem, tokens, List.mem_append, List.mem_append, List.mem_append,
    or_assoc, or_assoc, airborne_pos, ← hsub, ← mem_tokens_errands]
  simp only [List.mem_flatMap]

/-- So does a delivery that is under way. -/
theorem isSubscribed_of_delivering {cx : ContextId} {args}
    (h : (cx, .event t args) ∈ w.delivering) : w.isSubscribed t :=
  isSubscribed_iff.2 (.inr (airborne_pos.2 (.inr (.inl ⟨_, h, List.mem_singleton_self _⟩))))

end World

/-! ## What a move can make of subscriptions -/

/-- No installation comes, and none gains or loses a callback. -/
structure Still (w w' : World) : Prop where
  installs : World.InstallsNothing w w'
  subscriptions : ∀ {id i i'}, w.installation? id = some i → w'.installation? id = some i' →
    i'.subscriptions = i.subscriptions
  leftBehind : ∀ t, leftBehind t w'.history = leftBehind t w.history

/-- What a move can make of channels and subscriptions. -/
inductive Stirs (w w' : World) : Prop where
  | still (h : Still w w') (hc : w'.channels.entries = w.channels.entries)
  | installed {cx registry} (hc : (w.context? cx).isSome) (hw : w' = w.install cx registry)
  | connected {c i} (hb : w.bridge? c.context = some (c.installation, i))
      (hs : ∀ s ∈ c.subscribers, s = none) (hw : w' = { w with channels := w.channels.insert c })
  | switched {cx home i c} (id : ChannelsId) (place : Nat) (callback : Option ForeignValue)
      (hb : w.bridge? cx = some (home, i)) (hc : w.channels? id = some c)
      (hw : w' = (w.setSubscriber id place home i.nextSlot callback).1)
  | erased {id c} (hc : w.channels? id = some c)
      (hw : w' = ((w.disconnect id c).prune c.installation).1)

namespace Still

variable {w w' : World}

/-- What leaves installations alone leaves subscriptions alone. -/
theorem of_eq (hi : w'.installations = w.installations)
    (hl : ∀ t, History.leftBehind t w'.history = History.leftBehind t w.history) : Still w w' where
  installs := .of_eq hi
  subscriptions {id i i'} h h' := by
    rw [World.installation?_congr hi] at h'
    rw [Option.some.inj (h.symm.trans h')]
  leftBehind := hl

/-- So does a change to an installation that leaves its subscriptions alone. -/
theorem of_modify (home : InstallationId) (f : Installation → Installation)
    (hi : w'.installations = w.installations.modify home.index f)
    (hf : ∀ i, (f i).subscriptions = i.subscriptions)
    (hl : ∀ t, History.leftBehind t w'.history = History.leftBehind t w.history) : Still w w' where
  installs := .of_modify home f hi
  subscriptions {id i i'} h h' := by
    rw [World.installation?_modify hi h] at h'
    split at h'
    · cases h'
      exact hf i
    · cases h'
      rfl
  leftBehind := hl

/-- Moves that leave subscriptions alone follow each other. -/
theorem trans {w'' : World} (h : Still w w') (h' : Still w' w'') : Still w w'' where
  installs := h.installs.trans h'.installs
  subscriptions {id i i''} hi hi'' := by
    obtain ⟨i', hi'⟩ := Option.isSome_iff_exists.1 (h'.installs.isSome id (by rw [hi'']; rfl))
    rw [h'.subscriptions hi' hi'', h.subscriptions hi hi']
  leftBehind t := (h'.leftBehind t).trans (h.leftBehind t)

/-- Registering and queueing leave subscriptions alone. -/
theorem posts (h : World.Posts w w') : Still w w' := by
  refine .of_eq h.installations fun t => ?_
  cases h with
  | _ => rfl

/-- The beginning of a delivery does so as well. -/
theorem begins {cx wake} (h : World.Begins w cx wake w') : Still w w' := by
  cases h with
  | unparked hb hp =>
    exact .of_modify _ _ (w.vacate_installations ..) (fun _ => rfl) fun _ => rfl
  | _ => exact .of_eq rfl fun _ => rfl

/-- The end of an installation is not seen in the subscriptions of others. -/
theorem destroyed (id : InstallationId) :
    Still w { w with installations := w.installations.erase id.index } where
  installs := ⟨rfl, fun id' hi => by
    rw [World.installation?, Store.get?_erase] at hi
    split at hi
    · cases hi
    · exact hi⟩
  subscriptions {id' i i'} h h' := by
    rw [World.installation?, Store.get?_erase] at h'
    split at h'
    · cases h'
    · rw [Option.some.inj (h.symm.trans h')]
  leftBehind t := rfl

end Still

/-- Registering and queueing change no channels. -/
theorem World.Posts.channels {w w' : World} (h : World.Posts w w') : w'.channels = w.channels := by
  cases h with
  | _ => rfl

theorem World.Begins.channels {w w' : World} {cx wake} (h : World.Begins w cx wake w') :
    w'.channels = w.channels := by
  cases h with
  | _ => rfl

/-- **Channels and subscriptions** change when something is installed, connected or subscribed, and when
channels go. -/
theorem Move.stirs {w w' : World} (hm : Move w w') : Stirs w w' := by
  have hposts {w₀} (h : Still w w₀) (hc : w₀.channels = w.channels) (hp : World.Posts w₀ w') :
      Stirs w w' :=
    .still (h.trans (.posts hp)) (congrArg Store.entries (hp.channels.trans hc))
  have hrefl : Still w w := .of_eq rfl fun _ => rfl
  cases hm with
  | quiet h => exact .still (.of_eq h.installations fun t => by rw [h.history]) h.channels
  | destroy r h =>
    have hd := w.destroys r
    generalize (w.destroy r).1 = w' at hd hposts ⊢
    cases hd with
    | installation => exact .still (.destroyed _) rfl
    | channels hc => exact .erased hc rfl
    | @abandoned id d k hd ha =>
      have he : Still w (w.expire id) := .of_eq rfl fun _ => rfl
      exact hposts he rfl (.post ..)
    | _ => exact .still (.of_eq rfl fun _ => rfl) rfl
  | @keepClass cx home i o e hb ho hc hf =>
    refine .still (.of_modify home (fun i => { i with classes := i.classes ++ [e] }) rfl ?_ ?_) rfl
    · exact fun _ => rfl
    · exact fun _ => rfl
  | closeContext cx =>
    exact .still (.of_eq rfl fun t => skip_dropped (f := leftBehind t) (fun _ _ => rfl) ..) rfl
  | install registry hc => exact .installed hc rfl
  | @determine id status v _ h =>
    obtain ⟨d, -, -, -, hp⟩ := World.determine_posts h
    have hf : Still w (w.fulfil id { status, value := v } status v) := .of_eq rfl fun _ => rfl
    exact hposts hf rfl hp
  | @promise cx home i id d hb hd =>
    have hk : Still w (w.park cx home i.nextSlot id) :=
      .of_modify home _ (w.park_installations ..) (fun _ => rfl) fun _ => rfl
    have hf : Still (w.park cx home i.nextSlot id)
      ((w.park cx home i.nextSlot id).waitFor id d ⟨cx, i.nextSlot⟩) := .of_eq rfl fun _ => rfl
    obtain ⟨-, hp⟩ | ⟨-, hp⟩ := w.promise_posts cx home i.nextSlot hd
    · exact hposts (hk.trans hf) rfl hp
    · exact hposts hk rfl hp
  | connect hb hs => exact .connected hb hs rfl
  | setSubscriber id place callback hb =>
    cases hc : w.channels? id with
    | some c => exact .switched id place callback hb hc rfl
    | none =>
      refine .still ?_ ?_
      · unfold World.setSubscriber
        rw [hc]
        exact hrefl
      · unfold World.setSubscriber
        rw [hc]
  | aim args h => exact hposts hrefl rfl (.aim w ..)
  | arm h => exact hposts hrefl rfl (.arm w ..)
  | launch h => exact hposts hrefl rfl (.launch w ..)
  | @take cx wake _ h =>
    obtain ⟨rest, -, rfl⟩ := World.take_cases h
    have hb := World.begins (w.pop cx wake rest) cx wake
    have hp : Still w (w.pop cx wake rest) := .of_eq rfl fun _ => rfl
    exact .still (hp.trans (.begins hb)) (congrArg Store.entries hb.channels)
  | newTicket name h => exact hposts hrefl rfl (.newTicket w ..)
  | sendTicket h label body => exact hposts hrefl rfl (.sendTicket w ..)
  | _ => exact .still (.of_eq rfl fun _ => rfl) rfl

/-! ## Tokens on their way -/

namespace World

variable {w w' : World} {cx : ContextId} {t : Token}

/-- What is on its way hangs on queues, deliveries and errands alone. -/
theorem airborne_congr (hl : w'.loops = w.loops) (hd : w'.delivering = w.delivering)
    (he : w'.errands = w.errands) (t : Token) : w'.airborne t = w.airborne t := by
  rw [airborne, begun, hl, hd, he, airborne, begun]

/-- Registrations carry no tokens. -/
theorem airborne_register (w : World) (cx : ContextId) (t : Token) :
    (w.register cx).airborne t = w.airborne t := by
  rw [airborne, register_loops, Store.total_modify_of_eq]
  · rfl
  · exact fun _ => rfl

theorem airborne_unregister (w : World) (cx : ContextId) (t : Token) :
    (w.unregister cx).airborne t = w.airborne t := by
  rw [airborne, unregister_loops, Store.total_modify_of_eq]
  · rfl
  · exact fun _ => rfl

/-- A posted event is on its way. -/
theorem airborne_post (h : (w.loopOf cx).isOpen) (wake : Wake) (t : Token) :
    (w.post cx wake).1.airborne t = w.airborne t + if wake.isFor t then 1 else 0 := by
  obtain ⟨l, hl⟩ := Option.isSome_iff_exists.1 (isSome_loop?_of_isOpen h)
  have ht := Store.total_modify (fun l : Loop => l.queue.countP (Wake.isFor t))
    (fun l => { l with queue := l.queue ++ [wake] }) hl
  rw [List.countP_append, List.countP_singleton] at ht
  have hd : (w.post cx wake).1.delivering = w.delivering := (Posts.post w cx wake).delivering
  have hb : (w.post cx wake).1.begun = w.begun := by rw [begun, post_errands, begun]
  rw [airborne, airborne, post_loops_of_isOpen wake h, hd, hb]
  omega

/-- A wake that was to be queued and is not any more. -/
theorem airborne_errand {before after : List Errand} {wake : Wake}
    (h : w.errands = before ++ .armed cx wake :: after) (t : Token) :
    w.airborne t = World.airborne { w with errands := before ++ after } t +
      if wake.isFor t then 1 else 0 := by
  have hcount : w.begun.countP (·.2.1 = t) =
      (World.begun { w with errands := before ++ after }).countP (·.2.1 = t) +
        if wake.isFor t then 1 else 0 := by
    rw [begun, begun, h, List.filterMap_append, List.filterMap_append, List.countP_append,
      List.countP_append]
    cases wake with
    | event t' args =>
      have hcons : (Errand.armed cx (.event t' args) :: after).filterMap Errand.event? =
        (cx, t', args) :: after.filterMap Errand.event? := rfl
      rw [hcons, List.countP_cons]
      exact (Nat.add_assoc ..).symm
    | settle slot status v =>
      rw [List.filterMap_cons_none rfl]
      rfl
    | script label body =>
      rw [List.filterMap_cons_none rfl]
      rfl
  rw [airborne, airborne, hcount]
  exact (Nat.add_assoc ..).symm

/-- A new context has nothing on its way. -/
theorem airborne_openContext (w : World) (global : ObjectId) (t : Token) :
    (w.openContext global).airborne t = w.airborne t :=
  congrArg (· + _ + _) (Store.total_insert ..)

/-- What is queued for a context that closes is dropped. -/
theorem airborne_closeContext (w : World) (cx : ContextId) (t : Token) :
    (w.closeContext cx).1.airborne t + (w.loopOf cx).queue.countP (Wake.isFor t) =
      w.airborne t := by
  have hd : (w.closeContext cx).1.delivering = w.delivering := rfl
  have hb : (w.closeContext cx).1.begun = w.begun := rfl
  rw [airborne, airborne, w.closeContext_loops, hd, hb]
  cases hl : w.loop? cx with
  | none =>
    have hq : (w.loopOf cx).queue = [] := by
      rw [loopOf, hl]
      rfl
    rw [Store.modify_of_get?_none _ hl, hq]
    rfl
  | some l =>
    have hq : (w.loopOf cx).queue = l.queue := by
      rw [loopOf, hl]
      rfl
    have ht := Store.total_modify (fun l : Loop => l.queue.countP (Wake.isFor t)) (fun l => { l with
      queue := []
      live := l.live - (w.loopOf cx).queue.length
      isOpen := false }) hl
    rw [List.countP_nil] at ht
    rw [hq] at ht ⊢
    omega

/-- What is taken from the queue is still on its way, in its delivery. -/
theorem airborne_pop {wake : Wake} {rest : List Wake} (hq : (w.loopOf cx).queue = wake :: rest)
    (t : Token) : (w.pop cx wake rest).airborne t = w.airborne t := by
  have hs : (w.loop? cx).isSome := isSome_loop?_of_queue (by rw [hq]; exact List.cons_ne_nil _ _)
  obtain ⟨l, hl⟩ := Option.isSome_iff_exists.1 hs
  have ht := Store.total_modify (fun l : Loop => l.queue.countP (Wake.isFor t))
    ({ · with queue := rest }) hl
  have hlq : l.queue = wake :: rest := by
    rw [loopOf, hl] at hq
    exact hq
  have hd : (w.pop cx wake rest).delivering = (cx, wake) :: w.delivering := rfl
  rw [hlq, List.countP_cons] at ht
  have hb : (w.pop cx wake rest).begun = w.begun := rfl
  rw [airborne, airborne, w.pop_loops, hd, hb, List.countP_cons]
  dsimp only at ht ⊢
  omega

/-- At the end of its delivery an event is no longer on its way. -/
theorem airborne_finish {wake : Wake} {rest} (hd : w.delivering = (cx, wake) :: rest) (broke : Bool)
    (t : Token) :
    (w.finish cx wake broke).airborne t + (if wake.isFor t then 1 else 0) = w.airborne t := by
  have hd' : (w.finish cx wake broke).delivering = rest := (congrArg List.tail hd :)
  have hl : (w.finish cx wake broke).loops.total (fun l => l.queue.countP (Wake.isFor t)) =
      w.loops.total fun l => l.queue.countP (Wake.isFor t) := by
    rw [finish, unregister_loops, Store.total_modify_of_eq]
    exact fun _ => rfl
  have hb : (w.finish cx wake broke).begun = w.begun := rfl
  rw [airborne, airborne, hl, hd', hd, hb, List.countP_cons]
  dsimp only
  omega

end World

namespace History

/-- The end of a delivery counts against what is in flight. -/
theorem inFlight_ended (t : Token) (cx : ContextId) (wake : Wake) (broke : Bool)
    (h : List Occurrence) :
    inFlight t (.ended cx wake broke :: h) = inFlight t h - if wake.isFor t then 1 else 0 := by
  cases wake with
  | event t' args => simp only [inFlight, Wake.isFor, decide_eq_true_eq]
  | settle slot status v => exact (Int.sub_zero _).symm
  | script label body => exact (Int.sub_zero _).symm

/-- So does a wake that a closed loop drops. -/
theorem inFlight_drop (t : Token) (cx : ContextId) (wake : Wake) (h : List Occurrence) :
    inFlight t (.dropped cx wake :: h) = inFlight t h - if wake.isFor t then 1 else 0 := by
  cases wake with
  | event t' args => simp only [inFlight, Wake.isFor, decide_eq_true_eq]
  | settle slot status v => exact (Int.sub_zero _).symm
  | script label body => exact (Int.sub_zero _).symm

/-- A loop that ends drops what it has queued, and all of it counts. -/
theorem inFlight_dropped (t : Token) (cx : ContextId) (wakes : List Wake) (h : List Occurrence) :
    inFlight t (wakes.map (.dropped cx) ++ h) = inFlight t h - wakes.countP (Wake.isFor t) := by
  induction wakes with
  | nil => exact (Int.sub_zero _).symm
  | cons wake wakes ih =>
    rw [List.map_cons, List.cons_append, inFlight_drop, ih, List.countP_cons]
    split
    · omega
    · omega

/-- A firing took the token that is on its way. -/
theorem aimed_of_inFlight {t : Token} {h : List Occurrence} (hp : 0 < inFlight t h) :
    ∃ cx args, .aimed cx t args ∈ h := by
  induction h with
  | nil => exact absurd hp (Int.lt_irrefl 0)
  | cons o h ih =>
    have older (hp : 0 < inFlight t h) : ∃ cx args, .aimed cx t args ∈ o :: h := by
      obtain ⟨cx, args, hs⟩ := ih hp
      exact ⟨cx, args, List.mem_cons_of_mem _ hs⟩
    cases o with
    | aimed cx t' args =>
      rw [inFlight] at hp
      split at hp
      · next ht =>
        subst ht
        exact ⟨cx, args, List.mem_cons_self ..⟩
      · exact older (by omega)
    | ended cx wake broke =>
      rw [inFlight_ended] at hp
      exact older (by split at hp <;> omega)
    | dropped cx wake =>
      rw [inFlight_drop] at hp
      exact older (by split at hp <;> omega)
    | _ => exact older hp

end History

/-- The history counts the tokens on their way. -/
def Flights (w : World) : Prop :=
  ∀ t, inFlight t w.history = w.airborne t

/-- What is in flight by the history is what is on its way, as loops are concerned. -/
theorem Flights.loopLaw : LoopLaw Flights where
  aside h hw t := by rw [h.inFlight, hw, World.airborne_congr h.loops h.delivering h.errands]
  register {w} cx hw t := (hw t).trans (congrArg _ (w.airborne_register cx t).symm)
  unregister {w} cx hw t := (hw t).trans (congrArg _ (w.airborne_unregister cx t).symm)
  post {w} cx wake hp hw t := by
    by_cases ho : (w.loopOf cx).isOpen
    · have hh : (w.post cx wake).1.history = .sent cx wake :: w.history := by
        rw [World.post, if_pos ho]
      have hfor : wake.isFor t = false := by
        cases wake with
        | event t' args => cases hp
        | settle slot status v => rfl
        | script label body => rfl
      rw [World.airborne_post ho, hfor, hh]
      exact hw t
    · rw [World.post_of_closed wake ho]
      exact (hw t).trans (congrArg _ (w.airborne_unregister cx t).symm)
  errands {w es} he hw t := by
    have hb : World.begun { w with errands := es } = w.begun := he
    rw [World.airborne, hb]
    exact hw t
  aim {w} cx token args hw t := by
    have hh : (w.aim cx token args).history = .aimed cx token args :: w.history := rfl
    have hb : (w.aim cx token args).begun = (cx, token, args) :: w.begun := rfl
    have ha : (w.aim cx token args).airborne t = w.airborne t + if token = t then 1 else 0 := by
      rw [World.airborne, hb, List.countP_cons, World.airborne]
      simp only [decide_eq_true_eq]
      exact (Nat.add_assoc ..).symm
    rw [hh, inFlight, hw, ha]
    split
    · rfl
    · rfl
  launch {w before after cx wake} he hw t := by
    have ha := World.airborne_errand he t
    by_cases ho : (w.loopOf cx).isOpen
    · have ho' : (World.loopOf { w with errands := before ++ after } cx).isOpen := ho
      have hi : inFlight t (World.post { w with errands := before ++ after } cx wake).1.history =
          inFlight t w.history := by
        rw [World.post, if_pos ho']
        rfl
      rw [World.launch_of_isOpen ho, hi, hw, World.airborne_post ho', ha]
    · have hi : inFlight t (.dropped cx wake :: w.history) = _ := inFlight_drop t cx wake w.history
      rw [World.launch_of_closed ho, World.airborne_unregister]
      change inFlight t (.dropped cx wake :: w.history) =
        World.airborne { w with errands := before ++ after } t
      rw [hi, hw, ha]
      split
      · omega
      · omega

/-- **The tokens on their way are those that the history counts.** -/
theorem Reachable.flights {w : World} (h : Reachable w) : Flights w := by
  refine Flights.loopLaw.reachable (fun plans t => rfl)
    (fun w global _ hw t => (hw t).trans (congrArg _ (w.airborne_openContext global t).symm))
    (fun w cx hw t => ?_) (fun w cx wake w' ht hw t => ?_)
    (fun w cx token args verdict _ hw => hw) (fun w cx wake rest broke hd _ hw t => ?_) h
  · have hh : (w.closeContext cx).1.history =
        (w.loopOf cx).queue.map (.dropped cx) ++ .unbound cx :: w.history := rfl
    have hu : inFlight t (.unbound cx :: w.history) = inFlight t w.history := rfl
    have ha := w.airborne_closeContext cx t
    rw [hh, inFlight_dropped, hu, hw]
    omega
  · obtain ⟨rest, hq, rfl⟩ := World.take_cases ht
    have hi : inFlight t (w.pop cx wake rest).history = inFlight t w.history := rfl
    rw [hi, hw, World.airborne_pop hq]
  · have hh : (w.finish cx wake broke).history = .ended cx wake broke :: w.history := rfl
    have ha := World.airborne_finish hd broke t
    rw [hh, inFlight_ended, hw, ← ha]
    split
    · omega
    · omega

/-! ## Tokens are fired -/

namespace World

variable {w w' : World} {t : Token}

/-- A subscriber is in a channel. -/
theorem subscriber?_eq_some {id event cx} (h : w.subscriber? id event = some (cx, t)) :
    ∃ c, w.channels? id = some c ∧ c.context = cx ∧ some t ∈ c.subscribers := by
  obtain ⟨c, hc, h⟩ := Option.bind_eq_some_iff.1 h
  obtain ⟨place, -, h⟩ := Option.bind_eq_some_iff.1 h
  obtain ⟨token, ht, h⟩ := Option.bind_eq_some_iff.1 h
  cases h
  exact ⟨c, hc, rfl, List.mem_of_getElem? (Option.join_eq_some_iff.1 ht)⟩

/-- Whoever is the subscriber of a channel is subscribed. -/
theorem Subscribes.of_subscriber? {id event cx} (h : w.subscriber? id event = some (cx, t)) :
    w.Subscribes t := by
  obtain ⟨c, hc, -, ht⟩ := subscriber?_eq_some h
  exact ⟨id, c, hc, ht⟩

end World

/-- The reading of a history sees of all that is queued and dropped the events only, and nothing of what
stays away from the loops. -/
structure SeesEvents {β : Type} (f : List Occurrence → β) : Prop where
  aside {w w'} : Aside w w' → f w'.history = f w.history
  sent {cx wake h} : wake.event? = none → f (.sent cx wake :: h) = f h
  dropped {cx wake h} : wake.event? = none → f (.dropped cx wake :: h) = f h

/-- What a move can make of the events that a history tells of. -/
inductive Stages {β : Type} (f : List Occurrence → β) (w w' : World) : Prop where
  | same (h : f w'.history = f w.history) (hb : w'.begun = w.begun)
  | aimed {id event cx t} (args : List NativeValue) (h : w.subscriber? id event = some (cx, t))
      (hw : w' = w.aim cx t args)
  | launched {before after cx t args} (h : w.errands = before ++ .armed cx (.event t args) :: after)
      (hw : w' = (w.launch before after cx (.event t args)).1)
  | closed (cx : ContextId) (hw : w' = (w.closeContext cx).1)
  | taken {cx wake} (h : f w'.history = f (.taken cx wake :: w.history)) (hb : w'.begun = w.begun)
  | heard {cx t args verdict} (hw : w' = w.hear cx t args verdict)
  | ended {cx wake rest broke} (hd : w.delivering = (cx, wake) :: rest)
      (hw : w' = w.finish cx wake broke)

namespace SeesEvents

variable {β : Type} {f : List Occurrence → β} {w w' : World}

/-- Wakes without an event are not seen. -/
theorem post (hf : SeesEvents f) (w : World) (cx : ContextId) {wake : Wake}
    (h : wake.event? = none) : f (w.post cx wake).1.history = f w.history := by
  rw [World.post]
  split
  · exact hf.sent h
  · rfl

/-- Queueing what is no event. -/
theorem launch (hf : SeesEvents f) (w : World) (before after : List Errand) (cx : ContextId)
    {wake : Wake} (h : wake.event? = none) :
    f (w.launch before after cx wake).1.history = f w.history := by
  by_cases ho : (w.loopOf cx).isOpen
  · rw [World.launch_of_isOpen ho]
    exact hf.post { w with errands := before ++ after } cx h
  · rw [World.launch_of_closed ho]
    exact hf.dropped h

/-- Converting a deferred fires nothing. -/
theorem promise (hf : SeesEvents f) (cx : ContextId) (home : InstallationId) (slot : Nat) {id d}
    (hd : w.deferred? id = some d) : f (w.promise cx home slot id d).1.history = f w.history := by
  have hk : f (w.park cx home slot id).history = f w.history := hf.aside (w := w) (.of_eq rfl rfl)
  obtain ⟨-, -, h⟩ | ⟨-, old, -, h⟩ | ⟨-, h⟩ :=
    World.await_cases (w := w.park cx home slot id) hd ⟨cx, slot⟩
  · exact (congrArg (f ·.history) h).trans hk
  · exact (congrArg (f ·.history) h).trans hk
  · exact ((congrArg (f ·.history) h).trans (hf.post _ _ rfl)).trans hk

end SeesEvents

/-- Beside the loops no firing is begun. -/
theorem Aside.begun {w w' : World} (h : Aside w w') : w'.begun = w.begun := by
  rw [World.begun, World.begun, h.errands]

/-- **Events**: a firing takes its subscriber and later queues the event, and only deliveries and the end
of a context bear on it then. -/
theorem Move.stages {β : Type} {f : List Occurrence → β} (hf : SeesEvents f) {w w' : World}
    (hm : Move w w') : Stages f w w' := by
  have beside (h : Aside w w') : Stages f w w' := .same (hf.aside h) h.begun
  have same (h : f w'.history = f w.history) (he : w'.errands = w.errands) : Stages f w w' :=
    .same h (by rw [World.begun, World.begun, he])
  cases hm with
  | quiet h => exact beside (.of_quiet h)
  | destroy r hr =>
    have hd := w.destroys r
    generalize (w.destroy r).1 = w' at hd beside same ⊢
    have he := hd.errands
    cases hd with
    | @channels id c hc =>
      exact beside ((Aside.disconnect w id c).trans (.prune (w.disconnect id c) _))
    | @abandoned id d k hd ha =>
      have hexpire : f (w.expire id).history = f w.history := hf.aside (w := w) (.of_eq rfl rfl)
      exact same ((hf.post (w.expire id) _ rfl).trans hexpire) he
    | _ => exact same rfl rfl
  | closeContext cx => exact .closed cx rfl
  | @determine id status v _ h =>
    obtain ⟨d, -, -, -, rfl⟩ := World.determine_cases h
    have hd : f (w.fulfil id { status, value := v } status v).history = f w.history :=
      hf.aside (w := w) (.of_eq rfl rfl)
    exact .same hd (World.filterMap_errandsOf ..)
  | promise hb hd => exact same (hf.promise _ _ _ hd) (w.promise_errands _ _ _ hd)
  | setSubscriber id place callback hb => exact beside (.setSubscriber w ..)
  | aim args h => exact .aimed args h rfl
  | @arm before after cx token args h =>
    refine .same rfl ?_
    have hb : (w.arm before after cx (.event token args)).begun =
      (before ++ Errand.armed cx (.event token args) :: after).filterMap Errand.event? := rfl
    rw [hb, World.begun, h, List.filterMap_append, List.filterMap_append]
    rfl
  | @launch before after cx wake h =>
    have plain (hn : wake.event? = none) : Stages f w (w.launch before after cx wake).1 := by
      refine .same (hf.launch w before after cx hn) ?_
      have hnone : (Errand.armed cx wake).event? = none := by rw [Errand.event?, hn, Option.map_none]
      rw [World.begun, World.begun, w.launch_errands, h, List.filterMap_append,
        List.filterMap_append, List.filterMap_cons_none hnone]
    cases wake with
    | event t args => exact .launched h rfl
    | settle slot status v => exact plain rfl
    | script label body => exact plain rfl
  | @take cx wake _ h =>
    obtain ⟨rest, -, rfl⟩ := World.take_cases h
    have ha := Aside.begins (World.begins (w.pop cx wake rest) cx wake)
    exact .taken (hf.aside ha) ha.begun
  | hear hu h => exact .heard rfl
  | finish hd hu hs => exact .ended hd rfl
  | newTicket name h =>
    refine same ?_ (w.newTicket_errands ..)
    unfold World.newTicket
    split
    · rfl
    · rfl
  | sendTicket h label body => exact same (hf.post _ _ rfl) (World.post_errands ..)
  | install registry hc => exact beside (.install w ..)
  | unbind cx text => exact beside (.unbind w ..)
  | openScope h => exact beside (.openScope w _)
  | closeScope h => exact beside (.closeScope w _)
  | _ => exact same rfl rfl

/-- What firings have begun to queue, after a move. -/
theorem Move.begun {w w' : World} (hm : Move w w') {e : ContextId × Token × List NativeValue}
    (he : e ∈ w'.begun) : e ∈ w.begun ∨ ∃ id event,
      w.subscriber? id event = some (e.1, e.2.1) ∧ w' = w.aim e.1 e.2.1 e.2.2 := by
  obtain ⟨x, hx, hxe⟩ := List.mem_filterMap.1 he
  have hold {y : Errand} (hy : y ∈ w.errands) (hye : y.event? = some e) : e ∈ w.begun :=
    List.mem_filterMap.2 ⟨y, hy, hye⟩
  obtain hx | hx := hm.errand hx
  · exact .inl (hold hx hxe)
  · cases hx with
    | determined h hd hk => cases hxe
    | aimed h hw =>
      cases hxe
      exact .inr ⟨_, _, h, hw⟩
    | armed h hw =>
      cases hxe
      exact .inl (hold (h ▸ List.mem_append_right _ (List.mem_cons_self ..)) rfl)

/-- **What a firing queues it has taken a subscriber for.** -/
theorem Reachable.aimed_of_begun {w : World} (h : Reachable w)
    {e : ContextId × Token × List NativeValue} (he : e ∈ w.begun) :
    .aimed e.1 e.2.1 e.2.2 ∈ w.history := by
  refine h.rec' (P := fun w => e ∈ w.begun → .aimed e.1 e.2.1 e.2.2 ∈ w.history) (fun _ => nofun)
    (fun w w' hr ih hm he => ?_) he
  obtain he | ⟨id, event, -, rfl⟩ := hm.begun he
  · exact hm.history.subset (ih he)
  · exact List.mem_cons_self ..

/-- **What was queued had taken its subscriber before.** -/
theorem Reachable.aimed_of_sent {w : World} (h : Reachable w) {cx : ContextId} {t args}
    (hs : .sent cx (.event t args) ∈ w.history) : .aimed cx t args ∈ w.history := by
  refine h.rec' (P := fun w => .sent cx (.event t args) ∈ w.history →
    .aimed cx t args ∈ w.history) (fun _ => nofun) (fun w w' hr ih hm hs => ?_) hs
  obtain hs | hs := hm.arises hs
  · exact hm.history.subset (ih hs)
  · cases hs with
    | launched he hw =>
      refine hm.history.subset (hr.aimed_of_begun (e := (cx, t, args)) ?_)
      refine List.mem_filterMap.2 ⟨.armed cx (.event t args), ?_, rfl⟩
      rw [he]
      exact List.mem_append_right _ (List.mem_cons_self ..)

theorem seesEvents_inFlight (t : Token) : SeesEvents (inFlight t) where
  aside h := h.inFlight t
  sent _ := rfl
  dropped {cx wake h} hw := by
    cases wake with
    | event token args => cases hw
    | settle slot status v => rfl
    | script label body => rfl

/-- **A token comes on its way** when a channel fires that it is in. -/
theorem Move.inFlight {w w' : World} (hm : Move w w') (t : Token) :
    inFlight t w'.history ≤ inFlight t w.history ∨
      ∃ id event cx, w.subscriber? id event = some (cx, t) := by
  cases hm.stages (seesEvents_inFlight t) with
  | same h => exact .inl (Int.le_of_eq h)
  | @aimed id event cx t' args h hw =>
    by_cases he : t' = t
    · exact .inr ⟨id, event, cx, he ▸ h⟩
    · refine .inl (Int.le_of_eq ?_)
      rw [hw, World.aim, History.inFlight, if_neg he, Int.add_zero]
  | @launched before after cx t' args h hw =>
    refine .inl ?_
    rw [hw]
    by_cases ho : (w.loopOf cx).isOpen
    · rw [World.launch_of_isOpen ho, World.post]
      split
      · exact Int.le_refl _
      · exact Int.le_refl _
    · rw [World.launch_of_closed ho]
      change History.inFlight t (.dropped cx (.event t' args) :: w.history) ≤ _
      rw [inFlight_drop]
      split
      · omega
      · omega
  | closed cx hw =>
    have hh : (w.closeContext cx).1.history =
        (w.loopOf cx).queue.map (.dropped cx) ++ .unbound cx :: w.history := rfl
    have hu : History.inFlight t (.unbound cx :: w.history) = History.inFlight t w.history := rfl
    rw [hw, hh, inFlight_dropped, hu]
    omega
  | taken h => exact .inl (Int.le_of_eq h)
  | heard hw =>
    rw [hw]
    exact .inl (Int.le_refl _)
  | @ended cx wake rest broke hd hw =>
    have hh : (w.finish cx wake broke).history = .ended cx wake broke :: w.history := rfl
    rw [hw, hh, inFlight_ended]
    split
    · omega
    · omega

/-! ## Channels -/

namespace World

variable {w w' : World} {t : Token}

/-- Forgetting callbacks changes no channels. -/
theorem prune_channels (w : World) (id : InstallationId) : (w.prune id).1.channels = w.channels := by
  rw [prune]
  split
  · rfl
  · rfl

/-- Channels are looked up in their store alone. -/
theorem channels?_congr (h : w'.channels.entries = w.channels.entries) (id : ChannelsId) :
    w'.channels? id = w.channels? id := by
  rw [channels?, channels?, Store.get?, Store.get?, h]

/-- Only one channel changes its subscriber. -/
theorem setSubscriber_channels {id c} (hc : w.channels? id = some c) (place : Nat)
    (home : InstallationId) (slot : Nat) (callback : Option ForeignValue) :
    (w.setSubscriber id place home slot callback).1.channels = w.channels.modify id.index fun c =>
      { c with subscribers := c.subscribers.set place (callback.map fun _ => ⟨home, slot⟩) } := by
  unfold setSubscriber
  rw [hc]
  cases callback with
  | none => exact prune_channels ..
  | some f => exact prune_channels ..

/-- Setting a subscriber notes whose it was before. -/
theorem mem_switched {id c} (hc : w.channels? id = some c) (place : Nat) (home : InstallationId)
    (slot : Nat) (callback : Option ForeignValue) : .switched home c.installation ∈
      (w.setSubscriber id place home slot callback).1.history := by
  unfold setSubscriber
  rw [hc]
  cases callback with
  | none => exact (prune_history ..).subset (List.mem_cons_self ..)
  | some f => exact (prune_history ..).subset (List.mem_cons_self ..)

/-- It notes the callback under its token. -/
theorem mem_subscribed {id c} (hc : w.channels? id = some c) (place : Nat) (home : InstallationId)
    (slot : Nat) (f : ForeignValue) : .subscribed ⟨home, slot⟩ f ∈
      (w.setSubscriber id place home slot (some f)).1.history := by
  unfold setSubscriber
  rw [hc]
  exact (prune_history ..).subset (List.mem_cons_of_mem _ (List.mem_cons_self ..))

end World

/-- The move subscribes a callback, and the token stands for it. -/
def Enters (w w' : World) (id : ChannelsId) (t : Token) : Prop :=
  ∃ cx i place f, w.bridge? cx = some (t.installation, i) ∧ t.slot = i.nextSlot ∧
    w' = (w.setSubscriber id place t.installation i.nextSlot (some f)).1

/-- What a move can make of a set of channels. -/
inductive Tunes (w w' : World) (id : ChannelsId) (c' : Channels) : Prop where
  | kept {c} (hc : w.channels? id = some c) (hx : c'.context = c.context)
      (hi : c'.installation = c.installation)
      (hs : ∀ t, some t ∈ c'.subscribers → some t ∈ c.subscribers ∨ Enters w w' id t)
  | connected {i} (hb : w.bridge? c'.context = some (c'.installation, i))
      (hs : ∀ s ∈ c'.subscribers, s = none)

/-- **What a move does to a channel**. -/
theorem Stirs.channel {w w' : World} (h : Stirs w w') {id c'} (hc' : w'.channels? id = some c') :
    Tunes w w' id c' := by
  have same (h : w.channels? id = some c') : Tunes w w' id c' := .kept h rfl rfl fun t ht => .inl ht
  cases h with
  | still h hc => exact same ((World.channels?_congr hc id).symm.trans hc')
  | installed hc hw =>
    subst hw
    exact same hc'
  | @connected c i hb hs hw =>
    subst hw
    rw [World.channels?, Store.get?_insert] at hc'
    split at hc'
    · cases hc'
      exact .connected hb hs
    · exact same hc'
  | @switched cx home i c key place callback hb hc hw =>
    rw [World.channels?, hw, World.setSubscriber_channels hc, Store.get?_modify] at hc'
    split at hc'
    · next hk =>
      obtain rfl : id = key := congrArg ChannelsId.mk hk
      obtain ⟨c₀, hc₀, rfl⟩ := Option.map_eq_some_iff.1 hc'
      refine .kept hc₀ rfl rfl fun t ht => ?_
      obtain ht | ht := List.mem_or_eq_of_mem_set ht
      · exact .inl ht
      · obtain ⟨f, rfl, rfl⟩ := Option.map_eq_some_iff.1 ht.symm
        exact .inr ⟨cx, i, place, f, hb, rfl, hw⟩
    · exact same hc'
  | erased hc hw =>
    rw [World.channels?, hw, World.prune_channels] at hc'
    have he : (w.channels.erase _).get? id.index = some c' := hc'
    rw [Store.get?_erase] at he
    split at he
    · cases he
    · exact same he

/-- Callbacks are subscribed by way of the installation in its own channels, and only there. -/
def World.IsLocal (w : World) (id : InstallationId) : Prop :=
  ∀ home owner, .switched home owner ∈ w.history → (home = id ↔ owner = id)

/-- A token that enters a channel was subscribed. -/
theorem Enters.subscribed {w w' : World} {id c t} (h : Enters w w' id t)
    (hc : w.channels? id = some c) : ∃ f, .subscribed t f ∈ w'.history := by
  obtain ⟨cx, i, place, f, -, hs, rfl⟩ := h
  refine ⟨f, ?_⟩
  rw [← hs]
  exact World.mem_subscribed hc ..

/-- Setting it notes whose channels these are. -/
theorem Enters.switched {w w' : World} {id c t} (h : Enters w w' id t)
    (hc : w.channels? id = some c) : .switched t.installation c.installation ∈ w'.history := by
  obtain ⟨cx, i, place, f, -, -, rfl⟩ := h
  exact World.mem_switched hc ..

/-- An installation that has its callbacks in its own channels had them there before the move. -/
theorem World.IsLocal.move {w w' : World} {id} (h : w'.IsLocal id) (hm : Move w w') : w.IsLocal id :=
  fun home owner hs => h home owner (hm.history.subset hs)

/-- Channels belong to an installation, and tokens stand for callbacks that were subscribed. -/
structure Rooted (w : World) : Prop where
  channel : ∀ {id c}, w.channels? id = some c →
    ∃ registry, .installed c.context c.installation registry ∈ w.history
  token : ∀ {t}, w.Subscribes t → ∃ f, .subscribed t f ∈ w.history
  home : ∀ {id c t home}, w.channels? id = some c → some t ∈ c.subscribers → w.IsLocal home →
    (t.installation = home ↔ c.installation = home)
  aimed : ∀ {cx t args}, .aimed cx t args ∈ w.history → (∃ f, .subscribed t f ∈ w.history) ∧
    ∃ id registry, .installed cx id registry ∈ w.history ∧
      ∀ home, w.IsLocal home → (t.installation = home ↔ id = home)

/-- A move keeps it that tokens come from subscriptions. -/
theorem Rooted.move {w w' : World} (hw : Rooted w) (hb : Bridged w) (hm : Move w w') :
    Rooted w' := by
  have hmem {o} (h : o ∈ w.history) : o ∈ w'.history := hm.history.subset h
  refine ⟨fun {id c'} hc' => ?_, fun {t} ⟨id, c', hc', ht⟩ => ?_,
    fun {id c' t home} hc' ht hl => ?_, fun {cx t args} hs => ?_⟩
  · cases hm.stirs.channel hc' with
    | kept hc hx hi hs =>
      obtain ⟨registry, hr⟩ := hw.channel hc
      exact ⟨registry, hx ▸ hi ▸ hmem hr⟩
    | connected hbr hs =>
      obtain ⟨i, -, hi⟩ := hb.installed (World.bridge?_eq_some.1 hbr).1
      exact ⟨i.registry, hmem hi⟩
  · cases hm.stirs.channel hc' with
    | kept hc hx hi hs =>
      obtain ht | ht := hs t ht
      · obtain ⟨f, hf⟩ := hw.token ⟨id, _, hc, ht⟩
        exact ⟨f, hmem hf⟩
      · exact ht.subscribed hc
    | connected hbr hs => cases hs _ ht
  · cases hm.stirs.channel hc' with
    | kept hc hx hi hs =>
      rw [hi]
      obtain ht | ht := hs t ht
      · exact hw.home hc ht (hl.move hm)
      · exact hl _ _ (ht.switched hc)
    | connected hbr hs => cases hs _ ht
  · obtain hs | hs := hm.arises hs
    · obtain ⟨⟨f, hf⟩, id, registry, hi, hl⟩ := hw.aimed hs
      exact ⟨⟨f, hmem hf⟩, id, registry, hmem hi, fun home h => hl home (h.move hm)⟩
    · cases hs with
      | aimed h hw' =>
        obtain ⟨c, hc, rfl, ht⟩ := World.subscriber?_eq_some h
        obtain ⟨f, hf⟩ := hw.token ⟨_, c, hc, ht⟩
        obtain ⟨registry, hr⟩ := hw.channel hc
        exact ⟨⟨f, hmem hf⟩, _, registry, hmem hr, fun home h => hw.home hc ht (h.move hm)⟩

/-- **Tokens come from subscriptions**, in every reachable world. -/
theorem Reachable.rooted {w : World} (h : Reachable w) : Rooted w :=
  h.rec' (fun _ => ⟨nofun, fun ⟨_, _, hc, _⟩ => (nomatch hc), nofun, nofun⟩)
    fun _ _ hr hw hm => hw.move hr.bridged hm

/-- The token of an event was subscribed, in the installation of its channel. -/
theorem Reachable.rooted_of_sent {w : World} (h : Reachable w) {cx : ContextId} {t args}
    (hs : .sent cx (.event t args) ∈ w.history) : (∃ f, .subscribed t f ∈ w.history) ∧
      ∃ id registry, .installed cx id registry ∈ w.history ∧
        ∀ home, w.IsLocal home → (t.installation = home ↔ id = home) :=
  h.rooted.aimed (h.aimed_of_sent hs)

/-! ## Callbacks are kept -/

/-- A subscription that is wanted was made. -/
theorem Reachable.subscribed {w : World} (h : Reachable w) {t : Token} (ht : w.isSubscribed t) :
    ∃ f, .subscribed t f ∈ w.history := by
  have hwake {cx wake} (hs : wake ∈ sent cx w.history) (ht : t ∈ wake.tokens) :
      ∃ f, .subscribed t f ∈ w.history := by
    cases wake with
    | event t' args =>
      obtain rfl := List.mem_singleton.1 ht
      exact (h.rooted_of_sent (mem_sent.1 hs)).1
    | settle slot status v => exact absurd ht List.not_mem_nil
    | script label body => exact absurd ht List.not_mem_nil
  obtain ht | ht := World.isSubscribed_iff.1 ht
  · exact h.rooted.token ht
  · obtain ⟨l, hl, wake, hq, ht⟩ | ⟨d, hd, ht⟩ | ⟨e, he, rfl⟩ := World.airborne_pos.1 ht
    · obtain ⟨key, hl⟩ := Store.mem_values.1 hl
      have hq : wake ∈ (w.loopOf ⟨key⟩).queue := by rwa [World.loopOf, World.loop?, hl]
      exact hwake (h.traced.queued ⟨key⟩ wake hq) ht
    · exact hwake (h.traced.taken d.1 _ (h.traced.delivering d hd)) ht
    · exact (h.rooted.aimed (h.aimed_of_begun he)).1

/-- A subscription that is wanted after a move was wanted before it or is in a channel. -/
theorem Move.wanted {w w' : World} (hm : Move w w') (hr : Reachable w) {t : Token}
    (ht : w'.isSubscribed t) : w.isSubscribed t ∨ w'.Subscribes t := by
  obtain ht | ht := World.isSubscribed_iff.1 ht
  · exact .inr ht
  · refine .inl (World.isSubscribed_iff.2 ?_)
    have hf := hr.flights t
    have hf' := (hr.moves (.single hm)).flights t
    obtain hle | ⟨id, event, cx, hs⟩ := hm.inFlight t
    · exact .inr (by omega)
    · exact .inl (.of_subscriber? hs)

/-- A token that is new in the channels is that of a new subscription. -/
theorem Stirs.subscribes {w w' : World} (h : Stirs w w') {t : Token} (ht : w'.Subscribes t) :
    w.Subscribes t ∨ ∃ id c, w.channels? id = some c ∧ Enters w w' id t := by
  obtain ⟨id, c', hc', ht⟩ := ht
  cases h.channel hc' with
  | kept hc hx hi hs =>
    obtain ht | ht := hs t ht
    · exact .inl ⟨id, _, hc, ht⟩
    · exact .inr ⟨id, _, hc, ht⟩
  | connected hb hs => cases hs _ ht

/-- A callback that is wanted is not forgotten. -/
theorem Alters.keeps {w w' : World} {id i i'} (h : Alters w w' id i i') {slot : Nat}
    (ht : w'.isSubscribed ⟨id, slot⟩) (hs : slot ∈ i.subscriptions.map (·.1)) :
    slot ∈ i'.subscriptions.map (·.1) := by
  obtain ⟨e, he, rfl⟩ := List.mem_map.1 hs
  cases h with
  | forgot => exact List.mem_map_of_mem (List.mem_filter.2 ⟨he, ht⟩)
  | subscribed f hf =>
    exact List.mem_map_of_mem (List.mem_filter.2 ⟨List.mem_append_left _ he, ht⟩)
  | _ => exact List.mem_map_of_mem he

/-- **The callback of a token is kept** as long as the token is in a channel or on its way. -/
theorem Reachable.kept {w : World} (h : Reachable w) {t : Token} {i} (ht : w.isSubscribed t)
    (hi : w.installation? t.installation = some i) : t.slot ∈ i.subscriptions.map (·.1) := by
  refine h.rec' (P := fun w => ∀ t i, w.isSubscribed t → w.installation? t.installation = some i →
    t.slot ∈ i.subscriptions.map (·.1)) (fun plans t i _ hi => by cases hi)
    (fun w w' hr hw hm t i' ht hi' => ?_) t i ht hi
  have hold (h : w.isSubscribed t) : t.slot ∈ i'.subscriptions.map (·.1) := by
    cases hi : w.installation? t.installation with
    | some i => exact (hm.alters hi hi').keeps ht (hw t i h hi)
    | none =>
      -- a new installation has no token yet
      obtain ⟨f, hf⟩ := hr.subscribed h
      have hlt := hr.slotted.subscribed_fresh hf
      obtain hn | ⟨cx, registry, -, rfl⟩ := hm.installs
      · exact absurd (hn.isSome _ (by rw [hi']; rfl)) (by rw [hi]; exact nofun)
      · rw [World.installation?, World.install, Store.get?_insert,
          if_neg (Nat.ne_of_lt hlt)] at hi'
        cases hi.symm.trans hi'
  obtain h | h := hm.wanted hr ht
  · exact hold h
  · obtain h | ⟨id, c, hc, cx, i, place, f, hb, hs, rfl⟩ := hm.stirs.subscribes h
    · exact hold (World.isSubscribed_iff.2 (.inl h))
    · rw [World.installation?_setSubscriber hb hc] at hi'
      cases hi'
      have he : (⟨t.installation, i.nextSlot⟩ : Token) = t := by rw [← hs]
      rw [hs]
      exact List.mem_map_of_mem (a := (i.nextSlot, f)) (List.mem_filter.2
        ⟨List.mem_append_right _ (List.mem_singleton_self _),
          (congrArg (World.isSubscribed _) he).trans ht⟩)

end Isthmus
