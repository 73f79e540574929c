import Isthmus.Proofs.Pumping.Advance
import Isthmus.Proofs.Values.Probe
import Mathlib.Logic.Hydra

/-!
# Proofs/Pumping/Drains — pumping settles every promise whose deferred is complete

A delivery replaces a wake by those that it prompts, so a queue comes down as the heads of a hydra do: the
wakes in it are a multiset from which one is cut, and what grows in its place is below it.  That this is
well-founded is known of multisets (`WellFounded.cutExpand`); what is below a wake comes to an end because
there are finitely many deferreds and none of them encloses itself (`World.acc_of_acyclic`).

* `World.Lowers.exists_calls` — rounds of deliveries come to an empty queue.
* `World.OnlySettles.drains` — and where nothing but settlements is left to do, no promise is pending then.
* `World.OnlySettles.restless` — a deferred that is its own value never lets the queue get empty.
-/

namespace Isthmus

open History

namespace World

variable {w w' w₀ : World} {cx : ContextId} {r : Registry} {wake : Wake} {rest : List Wake} {n : Nat}

/-! ## Why it ends -/

/-- A wake is below one that prompts it, if all that this one leads to comes to an end. -/
def Below (w : World) (wake' wake : Wake) : Prop :=
  Acc (fun wake' wake => w.Prompts wake wake') wake ∧ w.Prompts wake wake'

theorem wellFounded_below (w : World) : WellFounded w.Below := by
  refine ⟨fun wake => ?_⟩
  by_cases h : Acc (fun wake' wake => w.Prompts wake wake') wake
  · induction h with
    | intro wake _ ih => exact ⟨wake, fun wake' h => ih wake' h.2⟩
  · exact ⟨wake, fun _ h' => absurd h'.1 h⟩

/-- What complete deferreds enclose comes to an end, if none encloses itself. -/
theorem acc_of_acyclic (hc : ∀ d, w.Involves cx d → w.IsComplete d)
    (ha : ∀ d, w.Involves cx d → ¬ Relation.TransGen w.Encloses d d) {d : DeferredId}
    (hd : w.Involves cx d) : Acc (fun d' d => w.Encloses d d') d := by
  refine Store.acc_of_acyclic (s := w.deferreds) (fun _ _ => DeferredId.index_inj.1) (fun d hd => ?_)
    (fun d d' hd => hd.encloses) ha hd
  obtain ⟨cell, hcell, -⟩ := hc d hd
  exact Option.isSome_of_eq_some hcell

theorem acc_of_tells {d : DeferredId} (h : Acc (fun d' d => w.Encloses d d') d) {wake : Wake}
    (ht : w.Tells d wake) : Acc (fun wake' wake => w.Prompts wake wake') wake := by
  induction h generalizing wake with
  | intro d _ ih =>
    obtain ⟨cell, slot, hcell, rfl⟩ := ht
    refine ⟨_, fun wake' ⟨d', hm, ht'⟩ => ?_⟩
    exact ih d' ⟨cell, hcell, hm⟩ ht'

/-! ## Pumping -/

section Lowers

variable {Inv : World → Prop} {below : Wake → Wake → Prop}

/-- A delivery replaces a wake by others that are below it. -/
def Lowers (n : Nat) (cx : ContextId) (Inv : World → Prop) (below : Wake → Wake → Prop) : Prop :=
  ∀ w wake rest, Inv w → (w.loopOf cx).queue = wake :: rest →
    let w' := (Engine.deliverNext (Session.runner n) cx).after w
    Inv w' ∧ ∃ new, (w'.loopOf cx).queue = rest ++ new ∧ ∀ wake' ∈ new, below wake' wake

/-- The queue of a context comes down, or stays as it is. -/
def Drains (cx : ContextId) (Inv : World → Prop) (below : Wake → Wake → Prop) (w w' : World) : Prop :=
  Inv w → Inv w' ∧ Relation.ReflTransGen (Relation.CutExpand below)
    ((w'.loopOf cx).queue : Multiset Wake) ((w.loopOf cx).queue : Multiset Wake)

instance : IsPreorder World (Drains cx Inv below) where
  refl _ h := ⟨h, .refl⟩
  trans _ _ _ h h' hw := by
    obtain ⟨hw₁, hle⟩ := h hw
    obtain ⟨hw₂, hle'⟩ := h' hw₁
    exact ⟨hw₂, hle'.trans hle⟩

theorem Lowers.cut (h : Lowers n cx Inv below) (hw : Inv w) (hq : (w.loopOf cx).queue = wake :: rest) :
    let w' := (Engine.deliverNext (Session.runner n) cx).after w
    Inv w' ∧ Relation.CutExpand below ((w'.loopOf cx).queue : Multiset Wake)
      ((w.loopOf cx).queue : Multiset Wake) := by
  intro w'
  obtain ⟨hw', new, hq', hnew⟩ := h w wake rest hw hq
  refine ⟨hw', new, wake, hnew, ?_⟩
  rw [hq', hq, ← Multiset.coe_add, ← Multiset.cons_coe, ← Multiset.singleton_add, add_right_comm,
    add_comm (rest : Multiset Wake)]

theorem Lowers.deliverNext (h : Lowers n cx Inv below) :
    Conserves (Drains cx Inv below) (Engine.deliverNext (Session.runner n) cx) := by
  intro w
  cases hq : (w.loopOf cx).queue with
  | nil =>
    rw [Engine.after_of_ok (Engine.run_deliverNext_nil hq)]
    exact refl_of _ w
  | cons wake rest =>
    intro hw
    obtain ⟨hw', hcut⟩ := h.cut hw hq
    exact ⟨hw', .single hcut⟩

/-- **A round of deliveries** brings a queue down. -/
theorem Lowers.runPending (h : Lowers n cx Inv below) (hw : Inv w) (hq : (w.loopOf cx).queue ≠ []) :
    let w' := (Engine.runPending (Session.runner n) cx).after w
    Inv w' ∧ Relation.TransGen (Relation.CutExpand below) ((w'.loopOf cx).queue : Multiset Wake)
      ((w.loopOf cx).queue : Multiset Wake) := by
  intro w'
  obtain ⟨wake, rest, hq⟩ := List.exists_cons_of_ne_nil hq
  obtain ⟨hw₁, hcut⟩ := h.cut hw hq
  have hw' : w' = (Engine.deliverNext (Session.runner n) cx >>= fun more => if more then
      (do return (← Engine.deliverMany (Session.runner n) cx rest.length) + 1) else return 0).after w := by
    change ((get : Engine World) >>= fun w => _).after w = _
    rw [Engine.after, Engine.run_get_bind, hq]
    rfl
  have hrest (more : Bool) : Conserves (Drains cx Inv below) (if more then
      (do return (← Engine.deliverMany (Session.runner n) cx rest.length) + 1) else return 0 :
        Engine Nat) :=
    .ite (fun _ => .bind (.deliverMany h.deliverNext) fun _ => .pure) fun _ => .pure
  rw [hw', Engine.after_bind]
  cases hr : (Engine.deliverNext (Session.runner n) cx).run w with
  | ok more w₁ =>
    rw [Engine.after_of_ok hr] at hw₁ hcut
    obtain ⟨hw₂, hle⟩ := hrest more w₁ hw₁
    exact ⟨hw₂, .tail' hle hcut⟩
  | error stop w₁ =>
    rw [Engine.after_of_error hr] at hw₁ hcut
    exact ⟨hw₁, .single hcut⟩

/-- **Rounds of deliveries** come to an empty queue, if what is below a wake comes to an end. -/
theorem Lowers.exists_calls (h : Lowers n cx Inv below) (hwf : WellFounded below) (hw : Inv w) :
    ∃ calls, let w' := ((Engine.runPending (Session.runner n) cx).after)^[calls] w
      Inv w' ∧ (w'.loopOf cx).queue = [] := by
  have hless := hwf.cutExpand.transGen
  induction hs : ((w.loopOf cx).queue : Multiset Wake) using hless.induction generalizing w with
  | _ queue ih =>
    subst hs
    by_cases hq : (w.loopOf cx).queue = []
    · exact ⟨0, hw, hq⟩
    · obtain ⟨hw', hlt⟩ := h.runPending hw hq
      obtain ⟨calls, hcalls⟩ := ih _ hlt hw' rfl
      exact ⟨calls + 1, hcalls⟩

end Lowers

/-! ### Where a bridge is installed -/

/-- Where nothing is queued, no promise is parked. -/
theorem Draining.slots_eq_nil (h : Draining n cx r w₀ w) (hq : (w.loopOf cx).queue = []) :
    w.slots cx = [] := by
  refine List.eq_nil_iff_forall_not_mem.2 fun slot hm => ?_
  have hcount := h.matched slot
  rw [settling, hq, List.countP_nil] at hcount
  exact absurd (List.count_pos_iff.2 hm) (by omega)

/-- All that is queued for the context comes to an end. -/
def Terminates (w₀ : World) (cx : ContextId) (w : World) : Prop :=
  ∀ wake ∈ (w.loopOf cx).queue, Acc (fun wake' wake => w₀.Prompts wake wake') wake

theorem lowers_draining (n : Nat) (cx : ContextId) (r : Registry) (w₀ : World) :
    Lowers n cx (fun w => Draining n cx r w₀ w ∧ Terminates w₀ cx w) w₀.Below := by
  rintro w wake rest ⟨h, ht⟩ hq w'
  obtain ⟨hw', new, hq', hnew⟩ := h.deliverNext hq
  have hacc := ht wake (hq ▸ List.mem_cons_self ..)
  refine ⟨⟨hw', fun wake' hm => ?_⟩, new, hq', fun wake' hm => ⟨hacc, hnew wake' hm⟩⟩
  rw [hq'] at hm
  obtain hm | hm := List.mem_append.1 hm
  · exact ht wake' (hq ▸ List.mem_cons_of_mem _ hm)
  · exact hacc.inv (hnew wake' hm)

/-! ### Where none is -/

/-- Nothing is queued for the context but scripts that leave its loop alone, and it has no promise. -/
structure Scripted (n : Nat) (cx : ContextId) (w : World) : Prop where
  unawaited : w.Unawaited cx
  slots : w.slots cx = []
  calm : ∀ wake ∈ (w.loopOf cx).queue, wake.Calm (Session.runner n) cx
  scripts : ∀ wake ∈ (w.loopOf cx).queue, ∀ slot, wake.settles slot = false

theorem lowers_scripted (n : Nat) (cx : ContextId) :
    Lowers n cx (Scripted n cx) fun _ _ => False := by
  intro w wake rest h hq w'
  have hwake : wake ∈ (w.loopOf cx).queue := hq ▸ List.mem_cons_self ..
  have hrest {wake' : Wake} (hm : wake' ∈ rest) : wake' ∈ (w.loopOf cx).queue :=
    hq ▸ List.mem_cons_of_mem _ hm
  have hcalm := h.calm wake hwake
  cases wake with
  | event token args => exact hcalm.elim
  | settle slot status v => exact absurd (h.scripts _ hwake slot) (by simp [Wake.settles])
  | script label body =>
    have hi : Idles cx { w.pop cx (.script label body) rest with held := [] :: w.held } w' :=
      trans_of _ (hcalm _) (Idles.deliverNext hq)
    have hu := hi h.unawaited
    have hslots : (w.pop cx (.script label body) rest).slots cx = w.slots cx :=
      slots_congr (data?_pop ..) fun _ _ => rfl
    have hqueue : (w'.loopOf cx).queue = rest := hu.queue.trans (pop_queue hq)
    refine ⟨⟨hu.unawaited, hu.slots.trans (hslots.trans h.slots), fun wake' hm => ?_, fun wake' hm => ?_⟩,
      [], hqueue.trans (List.append_nil _).symm, fun wake' hm => absurd hm List.not_mem_nil⟩
    · exact h.calm wake' (hrest (hqueue ▸ hm))
    · exact h.scripts wake' (hrest (hqueue ▸ hm))

/-! ### What is asked of a state -/

/-- **Nothing is left to do for a context but to settle promises** of deferreds that are complete.  Values
convert as the built-in types and any classes have it, the code that is run on the way leaves the loop alone,
no second bridge was installed, and each parked promise is the one that its deferred was last converted to
while pending. -/
structure OnlySettles (w : World) (n : Nat) (cx : ContextId) : Prop where
  bindings : bindings cx w.history ≤ 1
  builtin : ∀ b, w.bridge? cx = some b → ∃ plans keys limit dynamic,
    b.2.registry = .withClasses plans keys limit dynamic
  plain : ∀ b, w.bridge? cx = some b → ∀ e ∈ b.2.classes, w.PlainPrototype cx e.2
  /-- A deferred that was given a promise is complete. -/
  complete : ∀ k p d cell, .promised k p d ∈ w.history → k.context = cx → w.deferred? d = some cell →
    cell.status ≠ .pending
  kept : ∀ slot ∈ w.slots cx, lost ⟨cx, slot⟩ w.history = false
  /-- No event is queued, and no script that does anything about the loop. -/
  calm : ∀ wake ∈ (w.loopOf cx).queue, wake.Calm (Session.runner n) cx
  idle : ∀ a, w.Awaits cx a → a.Idle (Session.runner n) cx

/-- No thread is about to queue a settlement for the context. -/
def AllQueued (w : World) (cx : ContextId) : Prop :=
  ∀ e ∈ w.errands, ∀ slot, e.settles ⟨cx, slot⟩ = false

theorem AllQueued.coming_eq (h : w.AllQueued cx) (slot : Nat) :
    w.coming ⟨cx, slot⟩ = w.settling cx slot := by
  rw [World.coming_eq, List.countP_eq_zero.2 fun e he => Bool.eq_false_iff.1 (h e he slot), Nat.add_zero]

/-- The world is one that a run leads to, with no thread about to queue a settlement for the context, or it is
that of a session between two steps. -/
def Standing (w : World) (cx : ContextId) : Prop :=
  Reachable w ∧ w.AllQueued cx ∨ w.OfSession

theorem Standing.reachable (h : w.Standing cx) : Reachable w ∧ w.AllQueued cx := by
  obtain h | h := h
  · exact h
  · obtain ⟨hr, hrests⟩ := reachable_session h
    refine ⟨hr, fun e he => ?_⟩
    rw [hrests.errands] at he
    cases he

namespace OnlySettles

theorem unawaited (h : w.OnlySettles n cx) (hr : Reachable w) : w.Unawaited cx := by
  intro d cell k hcell ha hk
  have hs := Deferred.pending_of_abandoned ha
  rw [Deferred.abandoned_of_pending hs, (hr.tracked.pending hcell hs).2] at ha
  obtain ⟨p, hp⟩ := mem_of_latest ha
  exact h.complete k p d cell hp hk hcell hs

theorem matched (h : w.OnlySettles n cx) (hr : Reachable w) (hall : w.AllQueued cx) : w.Matched cx := by
  intro slot
  have hdue := hr.claimed h.bindings slot
  have hwaiting : w.waiting (· = ⟨cx, slot⟩) = 0 := by
    refine Nat.eq_zero_of_not_pos fun hpos => ?_
    obtain ⟨key, cell, hcell, hany⟩ := Store.exists_of_total_pos hpos
    cases hk : cell.abandoned with
    | none => simp [hk] at hany
    | some k =>
      by_cases hks : k = ⟨cx, slot⟩
      · exact h.unawaited hr ⟨key⟩ cell k hcell hk (congrArg Settlement.context hks)
      · simp [hk, hks] at hany
  rw [due, hwaiting, Nat.zero_add, hall.coming_eq] at hdue
  by_cases hm : slot ∈ w.slots cx
  · rw [h.kept slot hm] at hdue
    exact hdue
  · rw [List.count_eq_zero.2 hm] at hdue ⊢
    omega

theorem draining (h : w.OnlySettles n cx) (hw : w.Standing cx) {id i} (hb : w.bridge? cx = some (id, i))
    (hc : ∀ d, w.Involves cx d → w.IsComplete d) : Draining n cx i.registry w w :=
  let ⟨hr, hall⟩ := hw.reachable
  ⟨hr, hr.ready hb (h.plain _ hb), h.unawaited hr, h.matched hr hall, h.calm, h.idle, hc, fun _ _ => rfl⟩

/-- On a context without a bridge no settlement is queued. -/
theorem scripted (h : w.OnlySettles n cx) (hw : w.Standing cx) (hb : w.bridge? cx = none) :
    Scripted n cx w := by
  obtain ⟨hr, hall⟩ := hw.reachable
  have hslots := slots_of_none hb
  refine ⟨h.unawaited hr, hslots, h.calm, fun wake hm slot => ?_⟩
  have hsettling : w.settling cx slot = 0 := by rw [← h.matched hr hall slot, hslots, List.count_nil]
  exact Bool.eq_false_iff.2 (List.countP_eq_zero.1 hsettling wake hm)

end OnlySettles

end World

/-! ## The law -/

/-- **Pumping drains completed futures.**  Where nothing is left to do for a context but to settle promises
of deferreds that are complete, with the built-in conversions and those of any classes, and no deferred that
the queued values lead to is pending or encloses itself, finitely many rounds of deliveries come to an empty
queue and leave no promise pending. -/
theorem World.OnlySettles.drains {w : World} {n : Nat} {cx : ContextId} (hs : w.OnlySettles n cx)
    (hw : w.Standing cx)
    (hd : ∀ d, w.Involves cx d → w.IsComplete d ∧ ¬ Relation.TransGen w.Encloses d d) :
    ∃ calls, let w' := ((Engine.runPending (Session.runner n) cx).after)^[calls] w
      (w'.loopOf cx).queue = [] ∧ w'.slots cx = [] := by
  cases hb : w.bridge? cx with
  | none =>
    obtain ⟨calls, h', hq⟩ :=
      (World.lowers_scripted n cx).exists_calls emptyWf.wf (hs.scripted hw hb)
    exact ⟨calls, hq, h'.slots⟩
  | some b =>
    have hdraining := hs.draining hw hb fun d hw => (hd d hw).1
    have hends : World.Terminates w cx w := by
      intro wake hm
      refine ⟨_, fun wake' ⟨d, hmd, ht⟩ => World.acc_of_tells ?_ ht⟩
      exact World.acc_of_acyclic (fun d hw => (hd d hw).1) (fun d hw => (hd d hw).2)
        (World.Queues.involves ⟨wake, hm, hmd⟩)
    obtain ⟨calls, ⟨h', -⟩, hq⟩ := (World.lowers_draining n cx _ w).exists_calls
      (World.wellFounded_below w) ⟨hdraining, hends⟩
    exact ⟨calls, hq, h'.slots_eq_nil hq⟩

/-! ## Deferreds inside deferreds -/

namespace Pumping

/-- Two deferreds, of which the second may be complete. -/
def pair (other : Option NativeValue) : World :=
  let w := World.hosted.newDeferred.newDeferred
  match other with
  | some x => w.fulfil ⟨1⟩ { status := .resolved, value := x } .resolved x
  | none => w

/-- Both have names, and the first is complete with a value and has a promise. -/
def sample (v : NativeValue) (other : Option NativeValue) : World :=
  let w := (pair other).fulfil ⟨0⟩ { status := .resolved, value := v } .resolved v
  let w := (w.promise ⟨0⟩ ⟨0⟩ 1 ⟨0⟩ { status := .resolved, value := v }).1
  { w with
    roots.deferreds := [("d", ⟨0⟩), ("e", ⟨1⟩)]
    roots.values := [("p", .object ⟨0⟩)] }

theorem reachable_pair (other : Option NativeValue) : Reachable (pair other) := by
  have htwo : Reachable World.hosted.newDeferred.newDeferred :=
    reachable_hosted.moves (.tail (.single .newDeferred) .newDeferred)
  cases other with
  | none => exact htwo
  | some x =>
    have hcomplete : World.hosted.newDeferred.newDeferred.complete ⟨1⟩ .resolved x =
      some (pair (some x), []) := rfl
    exact htwo.moves (Moves.complete hcomplete)

theorem reachable_sample (v : NativeValue) (other : Option NativeValue) : Reachable (sample v other) := by
  let done := (pair other).fulfil ⟨0⟩ { status := .resolved, value := v } .resolved v
  have hcomplete : (pair other).complete ⟨0⟩ .resolved v = some (done, []) := by cases other <;> rfl
  have hb : done.bridge? ⟨0⟩ = some (⟨0⟩, { registry := .base }) := by cases other <;> rfl
  have hd : done.deferred? ⟨0⟩ = some { status := .resolved, value := v } := by cases other <;> rfl
  have hmoves : Moves (pair other) (done.promise ⟨0⟩ ⟨0⟩ 1 ⟨0⟩ { status := .resolved, value := v }).1 :=
    .tail (Moves.complete hcomplete) (.promise hb hd)
  exact (reachable_pair other).moves (.tail hmoves (.quiet (.of_eq rfl rfl)))

theorem standing_sample (v : NativeValue) (other : Option NativeValue) : (sample v other).Standing ⟨0⟩ := by
  have he : (sample v other).errands = [] := by cases other <;> rfl
  refine .inl ⟨reachable_sample v other, fun e hm => ?_⟩
  rw [he] at hm
  cases hm

theorem onlySettles_sample (v : NativeValue) (other : Option NativeValue) (n : Nat) :
    (sample v other).OnlySettles n ⟨0⟩ := by
  have hb : (sample v other).bridge? ⟨0⟩ =
      some (⟨0⟩, { registry := .base, resolvers := [(1, ⟨0⟩)], nextSlot := 2 }) := by
    cases other <;> rfl
  have hq : ((sample v other).loopOf ⟨0⟩).queue = [.settle 1 .resolved v] := by cases other <;> rfl
  have ho : (sample v other).object? ⟨0⟩ = some { context := ⟨0⟩, kind := .promise (.pending []) } := by
    cases other <;> rfl
  constructor
  case bindings => cases other <;> exact Nat.le_refl 1
  case builtin =>
    rintro b hb'
    cases hb.symm.trans hb'
    exact ⟨{}, [], Registry.base.maxBufferLength, Registry.base.dynamicTypes, rfl⟩
  case plain =>
    rintro b hb'
    cases hb.symm.trans hb'
    exact nofun
  case complete =>
    intro k p d cell hm _ hcell
    obtain rfl : d = ⟨0⟩ := by
      have hh : (sample v other).history = [.sent ⟨0⟩ (.settle 1 .resolved v),
          .promised ⟨⟨0⟩, 1⟩ ⟨0⟩ ⟨0⟩, .completed ⟨0⟩ .resolved v] ++
          (match other with
            | some x => [.completed ⟨1⟩ .resolved x]
            | none => []) ++ [.installed ⟨0⟩ ⟨0⟩ .base] := by cases other <;> rfl
      rw [hh] at hm
      cases other <;> simp at hm <;> exact hm.2.2
    have hcell' : (sample v other).deferred? ⟨0⟩ = some { status := .resolved, value := v } := by
      cases other <;> rfl
    cases hcell.symm.trans hcell'
    exact nofun
  case kept =>
    intro slot hm
    rw [World.slots_of_bridge? hb] at hm
    cases List.mem_singleton.1 hm
    cases other <;> rfl
  case calm =>
    intro wake hm
    rw [hq] at hm
    cases List.mem_singleton.1 hm
    trivial
  case idle =>
    rintro a ⟨b, hb', e, he, o, reactions, ho', hk, ha⟩
    cases hb.symm.trans hb'
    cases List.mem_singleton.1 he
    cases ho.symm.trans ho'
    cases hk
    cases ha

end Pumping

/-- A deferred inside a list inside a deferred: both promises are settled. -/
theorem drains_of_chained :
    let w := Pumping.sample (.list [.deferred ⟨1⟩, .int 7]) (some (.int 5))
    w.OnlySettles Session.depthLimit ⟨0⟩ ∧ (w.loopOf ⟨0⟩).queue ≠ [] ∧
      ∃ calls, let w' := ((Engine.runPending (Session.runner Session.depthLimit) ⟨0⟩).after)^[calls] w
        (w'.loopOf ⟨0⟩).queue = [] ∧ w'.slots ⟨0⟩ = [] := by
  intro w
  have hs : w.OnlySettles Session.depthLimit ⟨0⟩ := Pumping.onlySettles_sample ..
  have hleaf (d : DeferredId) : ¬ w.Encloses ⟨1⟩ d := by
    rintro ⟨cell, hcell, hm⟩
    have hcell' : w.deferred? ⟨1⟩ = some { status := .resolved, value := .int 5 } := rfl
    cases hcell.symm.trans hcell'
    cases hm
  refine ⟨hs, nofun, hs.drains (Pumping.standing_sample ..) fun d hd => ?_⟩
  obtain rfl : d = ⟨1⟩ := by
    refine hd.induction (P := (· = ⟨1⟩)) (fun d hq => ?_) fun d d' _ hd he => ?_
    · obtain ⟨wake, hm, hd⟩ := hq
      cases List.mem_singleton.1 hm
      cases List.mem_singleton.1 hd
      rfl
    · exact absurd (hd ▸ he) (hleaf d')
  refine ⟨⟨_, rfl, nofun⟩, fun h => ?_⟩
  obtain ⟨d, he, -⟩ := Relation.TransGen.head'_iff.1 h
  exact hleaf d he

namespace Engine

variable {run : Runner} {cx : ContextId} {w w₁ w₂ : World} {rest : List Wake}

/-- The delivery of a settlement whose value converts, when no reaction waits for the promise. -/
theorem run_deliverNext_settle {slot status v r p f o}
    (hq : (w.loopOf cx).queue = .settle slot status v :: rest)
    (hu : (unpark cx slot).run { w.pop cx (.settle slot status v) rest with held := [] :: w.held } =
      .ok (r, p) w₁) (hc : (toForeign run cx r v).run w₁ = .ok (.ok f) w₂) (ho : w₂.object? p = some o)
    (hk : o.kind = .promise (.pending [])) : (deliverNext run cx).run w = .ok true (closeFrame.after
      (((w₂.fix p (outcome (status = .resolved) f)).observe p (.settled (status = .resolved) f)).finish cx
        (.settle slot status v) false)) := by
  have hsettle : (settle run cx p (decide (status = .resolved)) f).run w₂ = .ok () _ := run_settle ho hk
  have hattempt := run_attempt (toForeign run cx r v) w₁
  rw [hc] at hattempt
  have hwork : (runWake run cx (.settle slot status v)).run
      { w.pop cx (.settle slot status v) rest with held := [] :: w.held } = .ok () _ :=
    (run_bind_of_ok hu).trans ((run_bind_of_ok hattempt).trans hsettle)
  have hdelivery : (runDelivery run cx (.settle slot status v)).run
      { w.pop cx (.settle slot status v) rest with held := [] :: w.held } = _ := run_runDelivery _
  rw [hwork] at hdelivery
  rw [run_deliverNext hq, run_bind_of_ok (run_deliver_of_ok hdelivery)]
  rfl

/-- Where everything has an owner, the end of an action lets go of nothing. -/
theorem closeFrame_of_owned (h : ({ w with held := w.held.tail } : World).unowned = []) :
    closeFrame.after w = { w with held := w.held.tail } := by
  change World.sweep _ = _
  rw [World.sweep, h]
  exact World.letGo_of_owned fun r hr => absurd hr List.not_mem_nil

end Engine

/-- **A deferred whose value is itself** keeps a loop busy for ever. -/
theorem World.OnlySettles.restless {w : World} {n : Nat} {cx : ContextId} (hs : w.OnlySettles n cx)
    (hw : w.Standing cx) (hc : ∀ d, w.Involves cx d → w.IsComplete d) {id i}
    (hb : w.bridge? cx = some (id, i)) (he : i.registry.encoder? .deferred = some .deferred)
    {d : DeferredId} (hd : ∃ cell, w.deferred? d = some cell ∧ cell.value = .deferred d)
    (hq : ∃ slot status, .settle slot status (.deferred d) ∈ (w.loopOf cx).queue) (calls : Nat) :
    ((((Engine.runPending (Session.runner n) cx).after)^[calls] w).loopOf cx).queue ≠ [] := by
  let Busy (w' : World) : Prop := World.Draining n cx i.registry w w' ∧
    ∃ slot status, .settle slot status (.deferred d) ∈ (w'.loopOf cx).queue
  have hpre : IsPreorder World fun w w' => Busy w → Busy w' :=
    { refl := fun _ h => h, trans := fun _ _ _ h h' hb => h' (h hb) }
  have hnext : Conserves (fun w w' => Busy w → Busy w') (Engine.deliverNext (Session.runner n) cx) := by
    rintro w' ⟨hdraining, hq⟩
    obtain ⟨slot, status, hm⟩ := hq
    obtain ⟨wake, rest, hcons⟩ := List.exists_cons_of_ne_nil (List.ne_nil_of_mem hm)
    exact ⟨(hdraining.deliverNext hcons).1, hdraining.recurs he hd ⟨slot, status, hm⟩⟩
  have hbusy : Busy (((Engine.runPending (Session.runner n) cx).after)^[calls] w) := by
    induction calls with
    | zero => exact ⟨hs.draining hw hb hc, hq⟩
    | succ calls ih =>
      rw [Function.iterate_succ_apply']
      exact Conserves.runPending hnext _ ih
  obtain ⟨-, slot, status, hm⟩ := hbusy
  exact List.ne_nil_of_mem hm

/-- Where nothing is queued, pumping does nothing. -/
theorem Engine.after_runPending_nil {run : Runner} {cx : ContextId} {w : World}
    (hq : (w.loopOf cx).queue = []) : (Engine.runPending run cx).after w = w := by
  change ((get : Engine World) >>= fun w => _).after w = _
  rw [Engine.after, Engine.run_get_bind, hq]
  rfl

namespace Pumping

/-- The value of a settled promise is a promise of its own, whose deferred is pending. -/
theorem run_nested (run : Runner) :
    ∃ w', (Engine.deliverNext run ⟨0⟩).run (sample (.deferred ⟨1⟩) none) = .ok true w' ∧
      (w'.loopOf ⟨0⟩).queue = [] ∧ w'.slots ⟨0⟩ = [2] := by
  let wake : Wake := .settle 1 .resolved (.deferred ⟨1⟩)
  let w₁ : World := { ((sample (.deferred ⟨1⟩) none).pop ⟨0⟩ wake []).vacate ⟨0⟩ ⟨0⟩ 1 ⟨0⟩ with
    held := [[.object ⟨0⟩, .installation ⟨0⟩]] }
  have hunpark : (Engine.unpark ⟨0⟩ 1).run
      { (sample (.deferred ⟨1⟩) none).pop ⟨0⟩ wake [] with held := [[]] } = .ok (.base, ⟨0⟩) w₁ := rfl
  have hpromise : (Engine.promiseFor ⟨0⟩ ⟨1⟩).run w₁ = .ok ⟨1⟩ _ := Engine.run_promiseFor rfl rfl rfl
  have hencode : (Engine.encode run ⟨0⟩ Registry.base.maxBufferLength .deferred (.deferred ⟨1⟩)).run w₁ =
      .ok (.object ⟨1⟩) _ := Engine.run_bind_of_ok hpromise
  have hconvert : (Engine.toForeign run ⟨0⟩ .base (.deferred ⟨1⟩)).run w₁ =
      .ok (.ok (.object ⟨1⟩)) _ := Engine.run_bind_of_ok hencode
  refine ⟨_, Engine.run_deliverNext_settle rfl hunpark hconvert rfl rfl, ?_⟩
  rw [Engine.closeFrame_of_owned]
  · exact ⟨rfl, rfl⟩
  · decide +kernel

/-- The queue is empty after the first round, and the promise stays parked. -/
theorem slots_nested (run : Runner) (calls : Nat) :
    (((Engine.runPending run ⟨0⟩).after)^[calls] (sample (.deferred ⟨1⟩) none)).slots ⟨0⟩ ≠ [] := by
  cases calls with
  | zero => exact List.cons_ne_nil _ _
  | succ calls =>
    obtain ⟨w', hrun, hq, hs⟩ := run_nested run
    have hround : (Engine.runPending run ⟨0⟩).run (sample (.deferred ⟨1⟩) none) = .ok 1 w' :=
      Engine.run_bind_of_ok hrun
    rw [Function.iterate_succ_apply, Engine.after_of_ok hround,
      Function.iterate_fixed (Engine.after_runPending_nil hq), hs]
    exact List.cons_ne_nil _ _

/-- The queue leads to the deferred that is its own value, and to no other. -/
theorem eq_of_knot {d : DeferredId} (h : (sample (.deferred ⟨0⟩) none).Involves ⟨0⟩ d) : d = ⟨0⟩ := by
  refine h.induction (P := (· = ⟨0⟩)) (fun d hq => ?_) fun d d' _ hd he => ?_
  · obtain ⟨wake, hm, hd⟩ := hq
    cases List.mem_singleton.1 hm
    cases List.mem_singleton.1 hd
    rfl
  · obtain ⟨cell, hcell, hm⟩ := hd ▸ he
    cases hcell
    cases List.mem_singleton.1 hm
    rfl

end Pumping

/-- A deferred whose value is itself keeps the queue from getting empty, and one whose value is a pending
deferred leaves that one's promise parked. -/
theorem undrained_samples :
    (let w := Pumping.sample (.deferred ⟨0⟩) none
     w.Standing ⟨0⟩ ∧ w.OnlySettles Session.depthLimit ⟨0⟩ ∧ ∀ calls,
       let w' := ((Engine.runPending (Session.runner Session.depthLimit) ⟨0⟩).after)^[calls] w
       (w'.loopOf ⟨0⟩).queue ≠ []) ∧
    (let w := Pumping.sample (.deferred ⟨1⟩) none
     w.Standing ⟨0⟩ ∧ w.OnlySettles Session.depthLimit ⟨0⟩ ∧ ∀ calls,
       let w' := ((Engine.runPending (Session.runner Session.depthLimit) ⟨0⟩).after)^[calls] w
       w'.slots ⟨0⟩ ≠ []) := by
  refine ⟨⟨Pumping.standing_sample .., Pumping.onlySettles_sample .., fun calls => ?_⟩,
    Pumping.standing_sample .., Pumping.onlySettles_sample .., Pumping.slots_nested _⟩
  let w := Pumping.sample (.deferred ⟨0⟩) none
  have hcell : w.deferred? ⟨0⟩ = some { status := .resolved, value := .deferred ⟨0⟩ } := rfl
  have hb : w.bridge? ⟨0⟩ =
      some (⟨0⟩, { registry := .base, resolvers := [(1, ⟨0⟩)], nextSlot := 2 }) := rfl
  have hcomplete (d : DeferredId) (hd : w.Involves ⟨0⟩ d) : w.IsComplete d := by
    obtain rfl := Pumping.eq_of_knot hd
    exact ⟨_, hcell, nofun⟩
  have hs : w.OnlySettles Session.depthLimit ⟨0⟩ := Pumping.onlySettles_sample ..
  exact hs.restless (Pumping.standing_sample ..) hcomplete hb rfl ⟨_, hcell, rfl⟩
    ⟨1, .resolved, List.mem_singleton.2 rfl⟩ calls

end Isthmus
