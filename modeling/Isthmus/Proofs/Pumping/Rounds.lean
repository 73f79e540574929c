import Mathlib
import Isthmus.Proofs.Run.Dispatch
import Isthmus.Proofs.Lifetime.Release

/-!
# Proofs/Pumping/Rounds — which wakes a round of deliveries takes

A round takes one wake from the front of the queue for each wake that was queued when it began.  It bounds
how many it takes, not which: a delivery that pumps the loop itself takes wakes as well, and for each of
those the round goes one place further, past the wakes that were queued and on to those posted meanwhile.

* `Reachable.round` — the place in the queue of each wake that a round delivers.
* `round_of_relay` — a round that delivers what its own delivery posted.
-/

namespace Isthmus

open History

/-! ## What happened since -/

namespace History

variable {h h' : List Occurrence} {cx : ContextId}

/-- What was taken before was taken first. -/
theorem taken_prefix_of_suffix (hs : h <:+ h') : taken cx h <+: taken cx h' := by
  obtain ⟨newer, rfl⟩ := hs
  induction newer with
  | nil => exact List.prefix_rfl
  | cons o newer ih =>
    cases o with
    | taken c wake =>
      rw [List.cons_append, taken_taken]
      split
      · exact ih.trans (List.prefix_append ..)
      · exact ih
    | _ => exact ih

/-- What was sent before was sent first. -/
theorem sent_prefix_of_suffix (hs : h <:+ h') : sent cx h <+: sent cx h' := by
  obtain ⟨newer, rfl⟩ := hs
  induction newer with
  | nil => exact List.prefix_rfl
  | cons o newer ih =>
    cases o with
    | sent c wake =>
      rw [List.cons_append, sent_sent]
      split
      · exact ih.trans (List.prefix_append ..)
      · exact ih
    | _ => exact ih

end History

namespace World

variable {w w' w'' : World} {cx : ContextId}

/-- The wakes of a loop whose delivery began since, oldest first. -/
def takenSince (w w' : World) (cx : ContextId) : List Wake :=
  (taken cx w'.history).drop (taken cx w.history).length

/-- The wakes that were queued for a context since, oldest first. -/
def sentSince (w w' : World) (cx : ContextId) : List Wake :=
  (sent cx w'.history).drop (sent cx w.history).length

/-- What was taken is what was taken before, and since. -/
theorem taken_append_takenSince (h : w.history <:+ w'.history) :
    taken cx w.history ++ w.takenSince w' cx = taken cx w'.history :=
  List.prefix_iff_eq_append.1 (taken_prefix_of_suffix h)

/-- What was sent is what was sent before, and since. -/
theorem sent_append_sentSince (h : w.history <:+ w'.history) :
    sent cx w.history ++ w.sentSince w' cx = sent cx w'.history :=
  List.prefix_iff_eq_append.1 (sent_prefix_of_suffix h)

theorem takenSince_self (w : World) (cx : ContextId) : w.takenSince w cx = [] :=
  List.drop_length

/-- What was taken since, in two stretches. -/
theorem takenSince_trans (h : w.history <:+ w'.history) (h' : w'.history <:+ w''.history) :
    w.takenSince w'' cx = w.takenSince w' cx ++ w'.takenSince w'' cx := by
  have he : taken cx w.history ++ w.takenSince w'' cx =
      taken cx w.history ++ (w.takenSince w' cx ++ w'.takenSince w'' cx) := by
    rw [taken_append_takenSince (h.trans h'), ← List.append_assoc, taken_append_takenSince h,
      taken_append_takenSince h']
  exact List.append_cancel_left he

end World

/-- What was taken since comes from the queue, and then from what was posted since. -/
theorem Reachable.takenSince_prefix {w w' : World} (h : Reachable w) (hm : Moves w w')
    {cx : ContextId} (ho : (w.loopOf cx).isOpen) :
    w.takenSince w' cx <+: (w.loopOf cx).queue ++ w.sentSince w' cx := by
  have hp := Reachable.taken_prefix (h.moves hm) cx
  rw [← World.taken_append_takenSince hm.history, ← World.sent_append_sentSince hm.history,
    h.queued.sent_eq cx ho, List.append_assoc] at hp
  exact (List.prefix_append_right_inj _).1 hp

/-- An open loop still has what was not taken since. -/
theorem Reachable.takenSince_append_queue {w w' : World} (h : Reachable w) (hm : Moves w w')
    {cx : ContextId} (ho : (w.loopOf cx).isOpen) (ho' : (w'.loopOf cx).isOpen) :
    w.takenSince w' cx ++ (w'.loopOf cx).queue = (w.loopOf cx).queue ++ w.sentSince w' cx := by
  have he := (h.moves hm).queued.sent_eq cx ho'
  rw [← World.taken_append_takenSince hm.history, ← World.sent_append_sentSince hm.history,
    h.queued.sent_eq cx ho, List.append_assoc, List.append_assoc] at he
  exact (List.append_cancel_left he).symm

/-! ## Deliveries that are under way were taken -/

/-- As many wakes of a loop were taken as make up for the deliveries that are under way. -/
def Backed (cx : ContextId) (before ahead : Nat) (w : World) : Prop :=
  w.inProgress cx + before ≤ ahead + (taken cx w.history).length

/-- Registering and queueing leave what is under way as it is. -/
theorem Backed.postLaw {cx : ContextId} {before ahead : Nat} :
    PostLaw (Backed cx before ahead) where
  aside {w w'} h hw := by
    have hp : w'.inProgress cx = w.inProgress cx := congrArg (List.countP _) h.delivering
    rw [Backed, hp, h.taken]
    exact hw
  register _ hw := hw
  unregister _ hw := hw
  post _ _ hw := by
    rw [World.post]
    split
    · exact hw
    · exact hw
  bustles h hw := by
    cases h with
    | _ => exact hw

/-- A move keeps it that what is under way was taken. -/
theorem Backed.move {cx : ContextId} {before ahead : Nat} {w w' : World}
    (hw : Backed cx before ahead w) (hm : Move w w') : Backed cx before ahead w' := by
  refine Backed.postLaw.loopLaw.move hw hm (fun _ => hw) (fun c => ?_) (fun c wake w₁ ht => ?_)
    (fun _ _ _ _ _ => hw) fun c wake rest broke hd _ => ?_
  · rw [Backed, taken_closeContext]
    exact hw
  · obtain ⟨rest, hq, rfl⟩ := World.take_cases ht
    have hh : (w.pop c wake rest).history = .taken c wake :: w.history := rfl
    rw [Backed, World.inProgress_pop, hh, taken_taken]
    rw [Backed] at hw
    split
    · rw [List.length_append, List.length_singleton]
      omega
    · exact hw
  · have hp := World.inProgress_finish hd broke cx
    rw [Backed] at hw
    change (w.finish c wake broke).inProgress cx + _ ≤ _ + (taken cx w.history).length
    omega

/-- So does a run. -/
theorem Backed.moves {cx : ContextId} {before ahead : Nat} {w w' : World}
    (hw : Backed cx before ahead w) (hm : Moves w w') : Backed cx before ahead w' := by
  induction hm with
  | refl => exact hw
  | tail _ hm ih => exact ih.move hm

/-! ## The deliveries of a round -/

/-- A delivery, and the wakes of the loop that were taken while it was under way, by calls inside it. -/
structure Turn where
  wake : Wake
  inner : List Wake

/-- All that was delivered from when a delivery began to its end. -/
def Turn.wakes (t : Turn) : List Wake :=
  t.wake :: t.inner

namespace Engine

/-- The deliveries that `deliverMany` makes itself. -/
def turns (run : Runner) (cx : ContextId) : Nat → World → List Turn
  | 0, _ => []
  | count + 1, w =>
    match (w.loopOf cx).queue with
    | [] => []
    | wake :: _ =>
      match (deliverNext run cx).run w with
      | .ok _ w' => ⟨wake, (w.takenSince w' cx).tail⟩ :: turns run cx count w'
      | .error _ w' => [⟨wake, (w.takenSince w' cx).tail⟩]

section Turns

variable {run : Runner} {cx : ContextId} {w w' : World} {wake : Wake} {rest : List Wake} {count : Nat}

/-- Without a queue there is no turn. -/
theorem turns_nil (hq : (w.loopOf cx).queue = []) : turns run cx count w = [] := by
  cases count with
  | zero => rfl
  | succ count => rw [turns, hq]

/-- A delivery that comes to its end is a turn, and others follow. -/
theorem turns_of_ok {more} (hq : (w.loopOf cx).queue = wake :: rest)
    (h : (deliverNext run cx).run w = .ok more w') : turns run cx (count + 1) w =
      ⟨wake, (w.takenSince w' cx).tail⟩ :: turns run cx count w' := by
  rw [turns, hq, h]

/-- One that aborts is the last. -/
theorem turns_of_error {stop} (hq : (w.loopOf cx).queue = wake :: rest)
    (h : (deliverNext run cx).run w = .error stop w') : turns run cx (count + 1) w =
      [⟨wake, (w.takenSince w' cx).tail⟩] := by
  rw [turns, hq, h]

/-- Where there is a wake, one is delivered. -/
theorem deliverNext_ok {more} (hq : (w.loopOf cx).queue = wake :: rest)
    (h : (deliverNext run cx).run w = .ok more w') : more = true := by
  rw [run_deliverNext hq] at h
  obtain ⟨_, _, _, h⟩ := bind_ok h
  cases h
  rfl

theorem run_deliverMany_nil (hq : (w.loopOf cx).queue = []) :
    (deliverMany run cx (count + 1)).run w = .ok 0 w :=
  run_bind_of_ok (run_deliverNext_nil hq)

/-- A round goes on where its first delivery ended. -/
theorem run_deliverMany_succ (hq : (w.loopOf cx).queue = wake :: rest) :
    (deliverMany run cx (count + 1)).run w = ((deliverNext run cx) >>= fun _ => do
      return (← deliverMany run cx count) + 1).run w := by
  rw [deliverMany, EStateM.run_bind, EStateM.run_bind]
  cases h : (deliverNext run cx).run w with
  | ok more w' =>
    obtain rfl := deliverNext_ok hq h
    rfl
  | error stop w' => rfl

/-- A round makes no more deliveries than it was asked for. -/
theorem length_turns_le : (turns run cx count w).length ≤ count := by
  induction count generalizing w with
  | zero => exact Nat.le_refl 0
  | succ count ih =>
    cases hq : (w.loopOf cx).queue with
    | nil =>
      rw [turns_nil hq]
      exact Nat.zero_le _
    | cons wake rest =>
      cases h : (deliverNext run cx).run w with
      | ok more w' =>
        rw [turns_of_ok hq h]
        exact Nat.succ_le_succ ih
      | error stop w' =>
        rw [turns_of_error hq h]
        exact Nat.succ_le_succ (Nat.zero_le _)

/-- A round that comes to its end answers how many deliveries it made, and stops short of what it was asked
for only where nothing is queued any more. -/
theorem deliverMany_ok {m} (h : (deliverMany run cx count).run w = .ok m w') :
    m = (turns run cx count w).length ∧ (m < count → (w'.loopOf cx).queue = []) := by
  induction count generalizing w m with
  | zero =>
    cases h
    exact ⟨rfl, fun hlt => absurd hlt (Nat.lt_irrefl 0)⟩
  | succ count ih =>
    cases hq : (w.loopOf cx).queue with
    | nil =>
      rw [run_deliverMany_nil hq] at h
      cases h
      exact ⟨by rw [turns_nil hq, List.length_nil], fun _ => hq⟩
    | cons wake rest =>
      rw [run_deliverMany_succ hq] at h
      obtain ⟨more, w₁, hnext, h⟩ := bind_ok h
      obtain ⟨m', w₂, hrest, h⟩ := bind_ok h
      cases h
      obtain ⟨hm, hend⟩ := ih hrest
      rw [turns_of_ok hq hnext, List.length_cons]
      exact ⟨congrArg (· + 1) hm, fun hlt => hend (Nat.lt_of_succ_lt_succ hlt)⟩

end Turns

end Engine

section

variable {w : World} {n : Nat} {cx : ContextId} {wake : Wake} {rest : List Wake}

/-- The end of an action adds to the history. -/
theorem Engine.closeFrame_history (w : World) :
    w.history <:+ (Engine.closeFrame.after w).history := by
  have hpre : IsPreorder World fun w w' : World => w.history <:+ w'.history :=
    { refl := fun _ => List.suffix_rfl, trans := fun _ _ _ => List.IsSuffix.trans }
  exact World.release_induction (R := fun w w' => w.history <:+ w'.history)
    (fun _ _ => List.suffix_rfl) (fun w r _ => (w.destroys r).history) { w with held := w.held.tail } _

/-- A delivery ends in a world in which its wake was taken. -/
theorem Reachable.taken_deliver (h : Reachable w)
    (hq : (w.loopOf cx).queue = wake :: rest) :
    let w' := (Engine.deliverNext (Session.runner n) cx).after w
    (taken cx w.history).length < (taken cx w'.history).length := by
  let work := Engine.runDelivery (Session.runner n) cx wake
  let w₀ : World := { w.pop cx wake rest with held := [] :: w.held }
  have hwork := (Worked.runDelivery (runs n) h hq ([] :: w.held)).within
  have htaken : (taken cx w.history).length < (taken cx (work.after w₀).history).length := by
    have hbacked : Backed cx (taken cx w.history).length (w.inProgress cx) (work.after w₀) :=
      Backed.moves (Nat.le_refl _) hwork.moves
    have hp : (work.after w₀).inProgress cx = w.inProgress cx + 1 := by
      rw [World.inProgress, hwork.delivering, List.countP_cons, if_pos (decide_eq_true rfl)]
      rfl
    rw [Backed, hp] at hbacked
    omega
  have hend (broke : Bool) : (taken cx (work.after w₀).history).length ≤
      (taken cx (Engine.closeFrame.after ((work.after w₀).finish cx wake broke)).history).length := by
    refine (taken_prefix_of_suffix (List.IsSuffix.trans ?_ (Engine.closeFrame_history _))).length_le
    exact List.suffix_cons _ _
  obtain ⟨broke, hafter⟩ : ∃ broke, (Engine.deliverNext (Session.runner n) cx).after w =
    Engine.closeFrame.after ((work.after w₀).finish cx wake broke) := Engine.after_deliverNext hq
  rw [hafter]
  exact Nat.lt_of_lt_of_le htaken (hend broke)

/-- A loop that has something queued is open. -/
theorem Reachable.isOpen_of_queue (h : Reachable w) (hq : (w.loopOf cx).queue = wake :: rest) :
    (w.loopOf cx).isOpen := by
  by_cases ho : (w.loopOf cx).isOpen
  · exact ho
  · cases (h.emptied cx ho).1.symm.trans hq

/-- A delivery takes the front of the queue first. -/
theorem Reachable.takenSince_deliverNext (h : Reachable w)
    (hq : (w.loopOf cx).queue = wake :: rest) :
    let w' := (Engine.deliverNext (Session.runner n) cx).after w
    w.takenSince w' cx = (⟨wake, (w.takenSince w' cx).tail⟩ : Turn).wakes := by
  intro w'
  have hactive : Active w w' := Conserves.deliverNext (runs n) w
  obtain ⟨hm, -⟩ := hactive h
  have hlt : (taken cx w.history).length < (taken cx w'.history).length := h.taken_deliver hq
  have hp : w.takenSince w' cx <+: wake :: (rest ++ w.sentSince w' cx) := by
    have hp := h.takenSince_prefix hm (h.isOpen_of_queue hq)
    rwa [hq] at hp
  cases ht : w.takenSince w' cx with
  | nil => exact absurd (List.drop_eq_nil_iff.1 ht) (Nat.not_le.2 hlt)
  | cons first more =>
    rw [ht] at hp
    rw [(List.cons_prefix_cons.1 hp).1]
    rfl

/-- **A round** takes the wakes that its deliveries account for, in this order. -/
theorem Reachable.takenSince_deliverMany (h : Reachable w) (count : Nat) :
    w.takenSince ((Engine.deliverMany (Session.runner n) cx count).after w) cx =
      (Engine.turns (Session.runner n) cx count w).flatMap Turn.wakes := by
  induction count generalizing w with
  | zero => exact w.takenSince_self cx
  | succ count ih =>
    cases hq : (w.loopOf cx).queue with
    | nil =>
      rw [Engine.after_of_ok (Engine.run_deliverMany_nil hq), Engine.turns_nil hq, w.takenSince_self]
      rfl
    | cons wake rest =>
      have hnext := h.takenSince_deliverNext (n := n) hq
      have hactive : Active w ((Engine.deliverNext (Session.runner n) cx).after w) :=
        Conserves.deliverNext (runs n) w
      obtain ⟨hm, -⟩ := hactive h
      rw [Engine.after, Engine.run_deliverMany_succ hq, ← Engine.after, Engine.after_bind]
      cases hr : (Engine.deliverNext (Session.runner n) cx).run w with
      | ok more w₁ =>
        rw [Engine.after_of_ok hr] at hnext hm
        have hmany : Active w₁ ((Engine.deliverMany (Session.runner n) cx count).after w₁) :=
          Conserves.deliverMany (Conserves.deliverNext (runs n)) w₁
        obtain ⟨hm', -⟩ := hmany (h.moves hm)
        rw [Engine.turns_of_ok hq hr, List.flatMap_cons, ← hnext, ← ih (h.moves hm)]
        dsimp only
        rw [Engine.after_bind_pure]
        exact World.takenSince_trans hm.history hm'.history
      | error stop w₁ =>
        rw [Engine.after_of_error hr] at hnext
        rw [Engine.turns_of_error hq hr, List.flatMap_singleton]
        exact hnext

end

/-! ## The law -/

namespace Turn

/-- A delivery comes after all those that were made from the first on, by whichever call. -/
theorem getElem?_wakes (before : List Turn) (t : Turn) (after : List Turn) :
    ((before ++ t :: after).flatMap wakes)[(before.flatMap wakes).length]? = some t.wake := by
  rw [List.flatMap_append, List.getElem?_append_right (Nat.le_refl _), Nat.sub_self]
  rfl

/-- Turns inside of which nothing is delivered deliver their own wakes. -/
theorem flatMap_wakes_of_inner {turns : List Turn} (h : ∀ t ∈ turns, t.inner = []) :
    turns.flatMap wakes = turns.map wake := by
  induction turns with
  | nil => rfl
  | cons t turns ih =>
    rw [List.flatMap_cons, List.map_cons, ih fun t' ht => h t' (List.mem_cons_of_mem _ ht), wakes,
      h t (List.mem_cons_self ..)]
    rfl

end Turn

/-- A round leads from one world to another by these deliveries of its own. -/
structure World.Round (w : World) (cx : ContextId) (turns : List Turn) (w' : World) : Prop where
  /-- It makes no more of them than wakes were queued. -/
  bounded : turns.length ≤ (w.loopOf cx).queue.length
  /-- What was taken is what they delivered, or calls inside them. -/
  taken : taken cx w'.history = taken cx w.history ++ turns.flatMap Turn.wakes
  /-- The queue is taken from the front, and what was posted meanwhile comes after it. -/
  rest : (w.loopOf cx).isOpen → (w'.loopOf cx).isOpen →
    turns.flatMap Turn.wakes ++ (w'.loopOf cx).queue = (w.loopOf cx).queue ++ w.sentSince w' cx
  /-- As long as fewer wakes were taken than were queued, the next is one of these. -/
  queued : ∀ before t after, turns = before ++ t :: after →
    (before.flatMap Turn.wakes).length < (w.loopOf cx).queue.length →
    (w.loopOf cx).queue[(before.flatMap Turn.wakes).length]? = some t.wake
  /-- Once calls inside its deliveries have taken the rest, the next is one that was posted meanwhile. -/
  posted : ∀ before t after, turns = before ++ t :: after →
    (w.loopOf cx).queue.length ≤ (before.flatMap Turn.wakes).length →
    (w.sentSince w' cx)[(before.flatMap Turn.wakes).length - (w.loopOf cx).queue.length]? = some t.wake
  /-- Where no call inside its deliveries takes any, it delivers what was queued. -/
  snapshot : (∀ t ∈ turns, t.inner = []) → turns.map Turn.wake <+: (w.loopOf cx).queue

/-- Whatever is taken from the front of the queue, the places in it are those of the law. -/
theorem World.Round.of_taken {w w' : World} {cx : ContextId} {turns : List Turn} (h : Reachable w)
    (hm : Moves w w') (hlen : turns.length ≤ (w.loopOf cx).queue.length)
    (ht : w.takenSince w' cx = turns.flatMap Turn.wakes) : w.Round cx turns w' := by
  have hprefix : turns.flatMap Turn.wakes <+: (w.loopOf cx).queue ++ w.sentSince w' cx := by
    cases hq : (w.loopOf cx).queue with
    | nil =>
      rw [hq, List.length_nil, Nat.le_zero, List.length_eq_zero_iff] at hlen
      rw [hlen]
      exact List.nil_prefix
    | cons wake rest =>
      rw [← ht, ← hq]
      exact h.takenSince_prefix hm (h.isOpen_of_queue hq)
  have hplace (before : List Turn) (t : Turn) (after : List Turn) (he : turns = before ++ t :: after) :
      ((w.loopOf cx).queue ++ w.sentSince w' cx)[(before.flatMap Turn.wakes).length]? =
        some t.wake := by
    have ht := Turn.getElem?_wakes before t after
    rw [← he] at ht
    obtain ⟨hlt, ht⟩ := List.getElem?_eq_some_iff.1 ht
    rw [← ht]
    exact List.prefix_iff_getElem?.1 hprefix _ hlt
  refine ⟨hlen, ?_, fun ho ho' => ?_, fun before t after he hlt => ?_, fun before t after he hle => ?_,
    fun hi => ?_⟩
  · rw [← ht, World.taken_append_takenSince hm.history]
  · rw [← ht]
    exact h.takenSince_append_queue hm ho ho'
  · rw [← hplace before t after he, List.getElem?_append_left hlt]
  · rw [← hplace before t after he, List.getElem?_append_right hle]
  · rw [Turn.flatMap_wakes_of_inner hi] at hprefix
    refine List.prefix_of_prefix_length_le hprefix (List.prefix_append ..) ?_
    rwa [List.length_map]

/-- **What a round of deliveries delivers.**  It takes the queue from the front, wake by wake, and makes at
most as many deliveries as wakes were queued when it began; each is of a wake that was queued then, unless
calls inside the deliveries before it took so many that the queue had come to those posted meanwhile. -/
theorem Reachable.round {w : World} (h : Reachable w) (n : Nat) (cx : ContextId) :
    let queue := (w.loopOf cx).queue
    let turns := Engine.turns (Session.runner n) cx queue.length w
    let round := Engine.runPending (Session.runner n) cx
    w.Round cx turns (round.after w) ∧
      ∀ m w', round.run w = .ok m w' →
        m = turns.length ∧ (m < queue.length → (w'.loopOf cx).queue = []) := by
  intro queue turns round
  have hround : round.run w = (Engine.deliverMany (Session.runner n) cx queue.length).run w := rfl
  have hactive : Active w (round.after w) := Conserves.runPending (Conserves.deliverNext (runs n)) w
  obtain ⟨hm, -⟩ := hactive h
  refine ⟨.of_taken h hm Engine.length_turns_le ?_, fun m w' hr => ?_⟩
  · rw [Engine.after, hround]
    exact h.takenSince_deliverMany _
  · rw [hround] at hr
    exact Engine.deliverMany_ok hr

namespace Pumping

/-- What the first of two wakes does: it pumps the loop and posts another. -/
def relaying : List Script.Step :=
  [.mk (.onLoop .runPending) none, .mk (.onLoop (.sendTicket "c" "C" [])) none]

/-- Two wakes are queued, and there is a third registration with the loop. -/
def relay : World :=
  let w := ((World.hosted.newTicket "a" ⟨0⟩).newTicket "b" ⟨0⟩).newTicket "c" ⟨0⟩
  ((w.sendTicket "a" ⟨0⟩ "A" relaying).1.sendTicket "b" ⟨0⟩ "B" []).1

theorem reachable_relay : Reachable relay := by
  let w₁ := World.hosted.newTicket "a" ⟨0⟩
  let w₂ := w₁.newTicket "b" ⟨0⟩
  let w₃ := w₂.newTicket "c" ⟨0⟩
  let w₄ := (w₃.sendTicket "a" ⟨0⟩ "A" relaying).1
  have h₃ : Moves World.hosted w₃ :=
    .tail (.tail (.single (.newTicket "a" rfl)) (.newTicket (w := w₁) "b" rfl))
      (.newTicket (w := w₂) "c" rfl)
  have ha : w₃.roots.tickets.find? "a" = some ⟨0⟩ := rfl
  have hb : w₄.roots.tickets.find? "b" = some ⟨0⟩ := rfl
  have h₄ : Move w₃ w₄ := .sendTicket ha "A" relaying
  have h₅ : Move w₄ relay := .sendTicket hb "B" []
  exact reachable_hosted.moves ((h₃.tail h₄).tail h₅)

set_option maxRecDepth 20000 in
theorem turns_relay : Engine.turns (Session.runner Session.depthLimit) ⟨0⟩ 2 relay =
    [⟨.script "A" relaying, [.script "B" []]⟩, ⟨.script "C" [], []⟩] := by
  cbv

set_option maxRecDepth 20000 in
theorem sentSince_relay : relay.sentSince
    ((Engine.runPending (Session.runner Session.depthLimit) ⟨0⟩).after relay) ⟨0⟩ =
      [.script "C" []] := by
  cbv

end Pumping

/-- A round that overtakes its own deliveries: the first pumps the loop, which takes the second wake, and
then posts a third, which the round delivers itself. -/
theorem round_of_relay :
    let w := Pumping.relay
    let queue := (w.loopOf ⟨0⟩).queue
    let turns := Engine.turns (Session.runner Session.depthLimit) ⟨0⟩ queue.length w
    let w' := (Engine.runPending (Session.runner Session.depthLimit) ⟨0⟩).after w
    w.Round ⟨0⟩ turns w' ∧
      queue = [.script "A" Pumping.relaying, .script "B" []] ∧ w.sentSince w' ⟨0⟩ = [.script "C" []] ∧
      turns = [⟨.script "A" Pumping.relaying, [.script "B" []]⟩, ⟨.script "C" [], []⟩] := by
  intro w queue turns w'
  have hr : Reachable w := Pumping.reachable_relay
  exact ⟨(hr.round Session.depthLimit ⟨0⟩).1, rfl, Pumping.sentSince_relay, Pumping.turns_relay⟩

end Isthmus
