import Mathlib
import Isthmus.Proofs.Lifetime.Steady

/-!
# Proofs/Heap/Reactions — what becomes of the reactions of a promise

The world notes what happens to each promise (`World.trace`), and no operation reads these notes.  The
trace of a promise has one shape: reactions are registered, then the promise is settled, then those that
wait run in turn (`InTurn`).  A reaction that is registered later runs at once, also inside another one
(`Late`).

* `PromiseState.Reaches` — what may happen to a promise between two of its states.
* `Unfolds` — the relation between two worlds that this makes; all that a session does keeps to it, since
  only settling a promise and registering a reaction touch its state.
* `World.responds` — what settling a promise and registering a reaction do, in any world.
* `Session.reactions` — in a session every reaction of a settled promise runs once and with the outcome of
  the promise, if no reaction breaks off.
-/

namespace Isthmus

open World

/-! ## Traces -/

namespace PromiseTrace

/-- The reactions that were registered. -/
@[simp] def registered : List PromiseEvent → List Reaction
  | [] => []
  | .registered r :: t => r :: registered t
  | _ :: t => registered t

/-- The outcomes that the promise got. -/
@[simp] def outcomes : List PromiseEvent → List (Bool × ForeignValue)
  | [] => []
  | .settled fulfil v :: t => (fulfil, v) :: outcomes t
  | _ :: t => outcomes t

/-- The reactions that began to run. -/
@[simp] def begun : List PromiseEvent → List Reaction
  | [] => []
  | .began r _ _ :: t => r :: begun t
  | _ :: t => begun t

/-- The reactions that came to their ends. -/
@[simp] def ended : List PromiseEvent → List Reaction
  | [] => []
  | .ended r :: t => r :: ended t
  | _ :: t => ended t

/-- The state that a trace leads to: the first outcome, or else the reactions that wait. -/
def state (t : List PromiseEvent) : PromiseState :=
  match outcomes t with
  | [] => .pending (registered t)
  | (fulfil, v) :: _ => Engine.outcome fulfil v

variable (t t' : List PromiseEvent) (rs : List Reaction)

/-- What a trace shows of two parts, one after the other. -/
@[simp] theorem of_append :
    registered (t ++ t') = registered t ++ registered t' ∧ outcomes (t ++ t') = outcomes t ++ outcomes t' ∧
      begun (t ++ t') = begun t ++ begun t' ∧ ended (t ++ t') = ended t ++ ended t' := by
  induction t with
  | nil => exact ⟨rfl, rfl, rfl, rfl⟩
  | cons e t ih => cases e <;> simpa using ih

/-- Registering reactions is all that happens to a promise that no one settles. -/
@[simp] theorem of_registered :
    registered (rs.map .registered) = rs ∧ outcomes (rs.map .registered) = [] ∧
      begun (rs.map .registered) = [] ∧ ended (rs.map .registered) = [] := by
  induction rs with
  | nil => exact ⟨rfl, rfl, rfl, rfl⟩
  | cons r rs ih => simpa using ih

end PromiseTrace

open PromiseTrace

/-- What happens once a promise has its outcome: reactions run with that outcome, and it gets no other. -/
def PromiseEvent.Obeys (fulfil : Bool) (v : ForeignValue) : PromiseEvent → Prop
  | .settled .. => False
  | .began _ f u => f = fulfil ∧ u = v
  | _ => True

/-! ## The shape of a trace -/

section

variable {fulfil : Bool} {v : ForeignValue} {t t' : List PromiseEvent} {waiting due : List Reaction}

/-- **Reactions that are registered late run at once**, and others may be registered inside them.  One
that breaks off does not come to its end. -/
inductive Late (fulfil : Bool) (v : ForeignValue) : List PromiseEvent → Prop where
  | nil : Late fulfil v []
  | ran (r : Reaction) {inner rest} (hi : Late fulfil v inner) (hr : Late fulfil v rest) :
      Late fulfil v (.registered r :: .began r fulfil v :: (inner ++ .ended r :: rest))
  | broke (r : Reaction) {inner rest} (hi : Late fulfil v inner) (hr : Late fulfil v rest) :
      Late fulfil v (.registered r :: .began r fulfil v :: (inner ++ rest))

/-- **The reactions that wait for a promise run in turn**, each to its end, and with each those that are
registered inside it.  If one breaks off, the others are still due, and do not run any more. -/
inductive InTurn (fulfil : Bool) (v : ForeignValue) :
    List Reaction → List PromiseEvent → List Reaction → Prop where
  | nil : InTurn fulfil v [] [] []
  | ran (r : Reaction) {waiting inner rest due} (hi : Late fulfil v inner)
      (hr : InTurn fulfil v waiting rest due) :
      InTurn fulfil v (r :: waiting) (.began r fulfil v :: (inner ++ .ended r :: rest)) due
  | broke (r : Reaction) {due inner} (hi : Late fulfil v inner) :
      InTurn fulfil v (r :: due) (.began r fulfil v :: inner) due

namespace Late

/-- Late reactions follow late reactions. -/
theorem append (h : Late fulfil v t) (h' : Late fulfil v t') : Late fulfil v (t ++ t') := by
  induction h with
  | nil => exact h'
  | ran r hi _ _ ih => simpa using ran r hi ih
  | broke r hi _ _ ih => simpa using broke r hi ih

/-- Late reactions get the outcome. -/
theorem obeys (h : Late fulfil v t) : ∀ e ∈ t, e.Obeys fulfil v := by
  induction h with
  | nil => simp
  | ran r _ _ ihi ihr => simpa [PromiseEvent.Obeys, or_imp, forall_and] using ⟨ihi, ihr⟩
  | broke r _ _ ihi ihr => simpa [PromiseEvent.Obeys, or_imp, forall_and] using ⟨ihi, ihr⟩

/-- Each that is registered begins, and none begins in between. -/
theorem begun_eq (h : Late fulfil v t) : begun t = registered t := by
  induction h with
  | nil => rfl
  | ran r _ _ ihi ihr => simp [ihi, ihr]
  | broke r _ _ ihi ihr => simp [ihi, ihr]

/-- No more reactions end than have begun. -/
theorem ended_le (h : Late fulfil v t) : (ended t).length ≤ (begun t).length := by
  induction h with
  | nil => exact Nat.le_refl _
  | ran r _ _ ihi ihr => simpa using by omega
  | broke r _ _ ihi ihr => simpa using by omega

end Late

namespace InTurn

/-- Reactions in turn get the outcome. -/
theorem obeys (h : InTurn fulfil v waiting t due) : ∀ e ∈ t, e.Obeys fulfil v := by
  induction h with
  | nil => simp
  | ran r hi _ ih => simpa [PromiseEvent.Obeys, or_imp, forall_and] using ⟨hi.obeys, ih⟩
  | broke r hi => simpa [PromiseEvent.Obeys] using hi.obeys

/-- What waits begins or is still due, and what is registered in between begins. -/
theorem perm (h : InTurn fulfil v waiting t due) :
    (begun t ++ due).Perm (waiting ++ registered t) := by
  induction h with
  | nil => exact .refl _
  | @ran r waiting inner rest due hi _ ih =>
    have hrest : (registered inner ++ (begun rest ++ due)).Perm
        (waiting ++ (registered inner ++ registered rest)) :=
      (ih.append_left _).trans (List.perm_append_comm_assoc ..)
    simpa [hi.begun_eq] using hrest
  | broke r hi => simpa [hi.begun_eq] using List.perm_append_comm

/-- Of what waits, the first begin in their order, and the others are still due. -/
theorem sublist (h : InTurn fulfil v waiting t due) :
    ∃ first, waiting = first ++ due ∧ first.Sublist (begun t) := by
  induction h with
  | nil => exact ⟨[], rfl, .slnil⟩
  | @ran r waiting inner rest due hi _ ih =>
    obtain ⟨first, rfl, hs⟩ := ih
    exact ⟨r :: first, rfl, by simpa using hs.trans (List.sublist_append_right ..)⟩
  | broke r hi => exact ⟨[r], rfl, by simp⟩

/-- No more of them end than have begun. -/
theorem ended_le (h : InTurn fulfil v waiting t due) : (ended t).length ≤ (begun t).length := by
  induction h with
  | nil => exact Nat.le_refl _
  | ran r hi _ ih =>
    have hinner := hi.ended_le
    simpa using by omega
  | broke r hi => simpa using Nat.le_succ_of_le hi.ended_le

/-- Where all that began came to its end, nothing is due. -/
theorem due_eq_nil (h : InTurn fulfil v waiting t due)
    (he : (ended t).length = (begun t).length) : due = [] := by
  induction h with
  | nil => rfl
  | ran r hi hr ih =>
    have hinner := hi.ended_le
    have hrest := hr.ended_le
    refine ih ?_
    simp only [PromiseTrace.begun, ended, of_append, List.length_cons, List.length_append] at he
    omega
  | broke r hi =>
    have hinner := hi.ended_le
    simp only [PromiseTrace.begun, ended, List.length_cons] at he
    omega

end InTurn

/-- **What happens to a promise that is settled.**  Before that reactions are registered that wait. -/
structure Reacted (t : List PromiseEvent) (waiting : List Reaction) (fulfil : Bool) (v : ForeignValue)
    (after : List PromiseEvent) : Prop where
  split : t = waiting.map .registered ++ .settled fulfil v :: after
  /-- The promise gets no other outcome, and its reactions run with this one. -/
  obeys : ∀ e ∈ after, e.Obeys fulfil v
  /-- First the reactions that wait run in turn.  The others run as soon as they are registered. -/
  order : ∃ turn late due, after = turn ++ late ∧ InTurn fulfil v waiting turn due ∧ Late fulfil v late
  /-- No reaction begins more often than it was registered. -/
  subperm : (begun after).Subperm (registered t)
  /-- If all that began came to their ends, each that was registered began once, and those that waited
  began in the order in which they were registered. -/
  runs : (ended after).length = (begun after).length →
    (begun after).Perm (registered t) ∧ waiting.Sublist (begun after)

/-- A promise that has its outcome gets no other. -/
theorem outcomes_of_obeys (h : ∀ e ∈ t, e.Obeys fulfil v) : outcomes t = [] := by
  induction t with
  | nil => rfl
  | cons e t ih =>
    obtain ⟨he, ht⟩ := List.forall_mem_cons.1 h
    cases e with
    | settled => exact he.elim
    | _ => exact ih ht

/-- **The course of a promise**: reactions wait for it, until it is settled. -/
inductive Course (t : List PromiseEvent) : Prop where
  | pending (waiting : List Reaction) (h : t = waiting.map .registered)
  | settled {waiting : List Reaction} {fulfil : Bool} {v : ForeignValue} {after : List PromiseEvent}
      (h : Reacted t waiting fulfil v after)

/-- A promise is settled at most once. -/
theorem Course.once (h : Course t) : (outcomes t).length ≤ 1 := by
  cases h with
  | pending waiting h => simp [h]
  | settled h => simp [h.split, outcomes_of_obeys h.obeys]

section

variable {turn late : List PromiseEvent}

/-- Those that have begun, and those that are due, are all that were registered. -/
theorem InTurn.perm_append (h : InTurn fulfil v waiting turn due) (hl : Late fulfil v late) :
    (begun (turn ++ late) ++ due).Perm (waiting ++ registered (turn ++ late)) := by
  have hcomm : (begun turn ++ (registered late ++ due)).Perm (begun turn ++ (due ++ registered late)) :=
    List.perm_append_comm.append_left _
  have hturn := h.perm.append_right (registered late)
  simpa [hl.begun_eq] using hcomm.trans (by simpa using hturn)

/-- A promise reacts as it has to if those that wait run in turn and the others at once. -/
theorem InTurn.reacted (h : InTurn fulfil v waiting turn due) (hl : Late fulfil v late) :
    Reacted (waiting.map .registered ++ .settled fulfil v :: (turn ++ late)) waiting fulfil v
      (turn ++ late) where
  split := rfl
  obeys e he := (List.mem_append.1 he).elim (h.obeys e) (hl.obeys e)
  order := ⟨turn, late, due, rfl, h, hl⟩
  subperm := by
    simpa using (List.sublist_append_left ..).subperm.trans (h.perm_append hl).subperm
  runs he := by
    have hturn := h.ended_le
    have hlate := hl.ended_le
    obtain rfl : due = [] := h.due_eq_nil (by
      simp only [of_append, List.length_append] at he
      omega)
    obtain ⟨first, hfirst, hsub⟩ := h.sublist
    obtain rfl : waiting = first := hfirst.trans (List.append_nil first)
    exact ⟨by simpa using h.perm_append hl, by simpa using hsub.trans (List.sublist_append_left ..)⟩

end

end

/-! ## States -/

namespace PromiseState

open Engine

variable {s s' s'' : PromiseState} {t t' : List PromiseEvent}

/-- An outcome is no longer pending. -/
theorem outcome_ne_pending {fulfil : Bool} {v : ForeignValue} {rs : List Reaction} :
    outcome fulfil v ≠ .pending rs := by
  cases fulfil <;> nofun

/-- An outcome shows how the promise was settled, and with what. -/
theorem outcome_inj {fulfil fulfil' : Bool} {v v' : ForeignValue}
    (h : outcome fulfil v = outcome fulfil' v') : fulfil = fulfil' ∧ v = v' := by
  cases fulfil <;> cases fulfil' <;> cases h <;> exact ⟨rfl, rfl⟩

/-- **What may happen to a promise**, from one of its states to another. -/
inductive Reaches : PromiseState → List PromiseEvent → PromiseState → Prop where
  | wait (waiting more : List Reaction) :
      Reaches (.pending waiting) (more.map .registered) (.pending (waiting ++ more))
  | settle {waiting more due : List Reaction} {fulfil v turn late s} (hs : s = outcome fulfil v)
      (ht : InTurn fulfil v (waiting ++ more) turn due) (hl : Late fulfil v late) :
      Reaches (.pending waiting) (more.map .registered ++ .settled fulfil v :: (turn ++ late)) s
  | stay {fulfil v late s} (hs : s = outcome fulfil v) (hl : Late fulfil v late) : Reaches s late s

/-- A promise stays as it is. -/
theorem Reaches.refl (s : PromiseState) : s.Reaches [] s := by
  cases s with
  | pending waiting => simpa using wait waiting []
  | fulfilled v => exact stay (show .fulfilled v = outcome true v from rfl) .nil
  | rejected v => exact stay (show .rejected v = outcome false v from rfl) .nil

/-- It goes on from where it is. -/
theorem Reaches.trans (h : s.Reaches t s') (h' : s'.Reaches t' s'') : s.Reaches (t ++ t') s'' := by
  cases h with
  | wait waiting more =>
    cases h' with
    | wait _ more' => simpa using wait waiting (more ++ more')
    | @settle _ more' due fulfil v turn _ _ hs ht hl =>
      have hturn : InTurn fulfil v (waiting ++ (more ++ more')) turn due := by simpa using ht
      simpa using settle hs hturn hl
    | stay hs _ => exact absurd hs.symm outcome_ne_pending
  | settle hs ht hl =>
    cases h' with
    | wait => exact absurd hs.symm outcome_ne_pending
    | settle => exact absurd hs.symm outcome_ne_pending
    | stay hs' hl' =>
      obtain ⟨rfl, rfl⟩ := outcome_inj (hs.symm.trans hs')
      simpa using settle hs ht (hl.append hl')
  | stay hs hl =>
    cases h' with
    | wait => exact absurd hs.symm outcome_ne_pending
    | settle => exact absurd hs.symm outcome_ne_pending
    | stay hs' hl' =>
      obtain ⟨rfl, rfl⟩ := outcome_inj (hs.symm.trans hs')
      exact stay hs (hl.append hl')

/-- A settled promise stays settled. -/
theorem Reaches.of_outcome {fulfil : Bool} {v : ForeignValue} (h : s.Reaches t s')
    (hs : s = outcome fulfil v) : s' = outcome fulfil v ∧ Late fulfil v t := by
  cases h with
  | wait => exact absurd hs.symm outcome_ne_pending
  | settle => exact absurd hs.symm outcome_ne_pending
  | stay hs' hl =>
    obtain ⟨rfl, rfl⟩ := outcome_inj (hs.symm.trans hs')
    exact ⟨hs, hl⟩

/-- What happens to a new promise has the shape of a course, and leads to the state that it shows. -/
theorem Reaches.course (h : (PromiseState.pending []).Reaches t s) : Course t ∧ s = state t := by
  generalize hnew : PromiseState.pending [] = new at h
  cases h with
  | wait waiting more =>
    cases hnew
    exact ⟨.pending more rfl, by simp [state]⟩
  | settle hs ht hl =>
    cases hnew
    exact ⟨.settled (ht.reacted hl), by simp [state, hs]⟩
  | stay hs hl => exact absurd (hs.symm.trans hnew.symm) outcome_ne_pending

end PromiseState

/-! ## What the world shows of a promise -/

namespace World

/-- What happened to a promise, oldest first. -/
def trace (w : World) (p : ObjectId) : List PromiseEvent :=
  ((w.promises.filter (·.1 = p)).map (·.2)).reverse

/-- A promise that is there has the state; one that was not made yet has nothing to wait for it. -/
structure PromiseIs (w : World) (p : ObjectId) (s : PromiseState) : Prop where
  object : ∀ o s', w.object? p = some o → o.kind = .promise s' → s' = s
  fresh : w.objects.next ≤ p.index → s = .pending []

/-- Events happened to a promise, which has a state then. -/
structure Went (w : World) (p : ObjectId) (t : List PromiseEvent) (w' : World) (s : PromiseState) :
    Prop where
  trace : w'.trace p = w.trace p ++ t
  state : w'.PromiseIs p s

variable {w w' w'' : World} {p q : ObjectId} {t t' : List PromiseEvent} {s s' : PromiseState}

/-- What is observed of a promise comes last in its trace. -/
theorem trace_observe (w : World) (p : ObjectId) (e : PromiseEvent) :
    (w.observe p e).trace p = w.trace p ++ [e] := by
  simp [trace, observe]

/-- It is not seen in the trace of another. -/
theorem trace_observe_ne (h : q ≠ p) (w : World) (e : PromiseEvent) :
    (w.observe q e).trace p = w.trace p := by
  simp [trace, observe, h]

theorem Went.refl (h : w.PromiseIs p s) : w.Went p [] w s :=
  ⟨(List.append_nil _).symm, h⟩

/-- A promise goes on from where it went. -/
theorem Went.trans (h : w.Went p t w' s) (h' : w'.Went p t' w'' s') : w.Went p (t ++ t') w'' s' :=
  ⟨by rw [h'.trace, h.trace, List.append_assoc], h'.state⟩

/-- The state of a promise is what its object shows. -/
theorem PromiseIs.of_object {o : Object} (ho : w.object? p = some o) (hk : o.kind = .promise s) :
    w.PromiseIs p s where
  object o' s' ho' hk' := by
    cases ho.symm.trans ho'
    cases hk.symm.trans hk'
    rfl
  fresh hle := absurd (Store.lt_next_of_get? ho) (Nat.not_lt.2 hle)

/-- To observe a promise changes nothing about it. -/
theorem PromiseIs.observe (h : w.PromiseIs p s) (e : PromiseEvent) : w.Went p [e] (w.observe p e) s :=
  ⟨trace_observe w p e, ⟨h.object, h.fresh⟩⟩

/-- The state of a promise changes. -/
theorem Went.fix {o : Object} (ho : w.object? p = some o) (s : PromiseState) :
    w.Went p [] (w.fix p s) s where
  trace := (List.append_nil _).symm
  state := by
    have hfixed : (w.fix p s).object? p = some { o with kind := .promise s } := by
      rw [object?_fix, if_pos rfl, ho]
      rfl
    exact .of_object hfixed rfl

end World

/-- What an action may do to a promise: what happens to it is added to its trace, and agrees with the states
before and after. -/
def Unfolds (p : ObjectId) (w w' : World) : Prop :=
  ∀ s, w.PromiseIs p s → ∃ t s', s.Reaches t s' ∧ w.Went p t w' s'

namespace Unfolds

variable {w w' : World} {p id : ObjectId} {cx : ContextId}

instance : IsPreorder World (Unfolds p) where
  refl _ s h := ⟨[], s, .refl s, .refl h⟩
  trans _ _ _ h h' s hs := by
    obtain ⟨t, s', ht, hw⟩ := h s hs
    obtain ⟨t', s'', ht', hw'⟩ := h' s' hw.state
    exact ⟨t ++ t', s'', ht.trans ht', hw.trans hw'⟩

/-- Nothing happens to the promise, and if it is new, nothing waits for it. -/
theorem still (hp : w'.promises = w.promises) (hn : w.objects.next ≤ w'.objects.next)
    (ho : ∀ o', w'.object? p = some o' → (∃ o, w.object? p = some o ∧ o'.kind = o.kind) ∨
      (w.objects.next ≤ p.index ∧ ∀ s, o'.kind = .promise s → s = .pending [])) : Unfolds p w w' := by
  intro s hs
  refine ⟨[], s, .refl s, by rw [World.trace, hp, List.append_nil, World.trace], fun o' s' ho' hk => ?_,
    fun hle => hs.fresh (Nat.le_trans hn hle)⟩
  obtain ⟨o, hold, hkind⟩ | ⟨hle, hnew⟩ := ho o' ho'
  · exact hs.object o s' hold (hkind ▸ hk)
  · exact (hnew s' hk).trans (hs.fresh hle).symm

/-- Who leaves objects and traces alone unfolds nothing. -/
theorem of_eq (ho : w'.objects = w.objects) (hp : w'.promises = w.promises) : Unfolds p w w' :=
  still hp (Nat.le_of_eq (congrArg _ ho.symm)) fun o' h =>
    .inl ⟨o', by rwa [World.object?, ho] at h, rfl⟩

/-- So does who only thins the world out. -/
theorem of_thins (h : Thins w w') : Unfolds p w w' :=
  still h.promises (Nat.le_of_eq h.objects_next.symm) fun o' ho' => .inl ⟨o', h.objects _ o' ho', rfl⟩

/-- A new object may be a promise, if it is pending and nobody waits for it. -/
theorem addObject (w : World) {o : Object} (hs : ∀ s, o.kind = .promise s → s = .pending []) :
    Unfolds p w { w with objects := w.objects.insert o } := by
  refine still rfl (Nat.le_succ _) fun o' ho' => ?_
  rw [World.object?, Store.get?_insert] at ho'
  split at ho'
  · next hp =>
    cases ho'
    exact .inr ⟨Nat.le_of_eq hp.symm, hs⟩
  · exact .inl ⟨o', ho', rfl⟩

/-- An object changes that is not the promise, or whose kind stays. -/
theorem modifyObject {f : Object → Object} (hf : id ≠ p ∨ ∀ o, (f o).kind = o.kind) :
    Conserves (Unfolds p) (Engine.modifyObject id f) := by
  refine .modify fun w => still rfl (Nat.le_refl _) fun o' ho' => .inl ?_
  rw [World.object?, Store.get?_modify] at ho'
  split at ho'
  · next hid =>
    obtain ⟨o, ho, rfl⟩ := Option.map_eq_some_iff.1 ho'
    obtain hne | hf := hf
    · exact absurd (ObjectId.index_inj.1 hid).symm hne
    · exact ⟨o, ho, hf o⟩
  · exact ⟨o', ho', rfl⟩

/-- What is observed of other promises is not seen. -/
theorem observe_ne (h : id ≠ p) {e : PromiseEvent} : Conserves (Unfolds p) (Engine.observe id e) := by
  refine .modify fun w s hs => ⟨[], s, .refl s, ?_, ⟨hs.object, hs.fresh⟩⟩
  rw [World.trace_observe_ne h, List.append_nil]

instance : Releases (Unfolds p) where
  release w fs := of_thins (Thins.release w fs)

/-- Who leaves holdings alone unfolds nothing. -/
theorem of_holdings (h : w'.holdings = w.holdings) : Unfolds p w w' := by
  simp only [World.holdings, Prod.mk.injEq] at h
  obtain ⟨ho, -, -, -, hp⟩ := h
  exact of_eq ho hp

instance : NativeSteady (Unfolds p) where
  aside h _ := of_holdings h.1
  hold _ _ := of_eq rfl rfl
  frame {w _ w₂} h h₂ _ _ := by
    have hopen : Unfolds p w { w with held := [] :: w.held } := of_eq rfl rfl
    have hend : Unfolds p w w₂ := trans_of _ (trans_of _ hopen h) (of_holdings h₂)
    exact trans_of _ hend (Releases.release _ _)
  addInstance _ _ := of_eq rfl rfl
  setInstance _ _ := of_eq rfl rfl

/-! ## Settling and reacting -/

section

variable {run : Runner} (hrun : Runs (Unfolds p) run) (cx : ContextId) {w : World} {fulfil : Bool}
  {v : ForeignValue}
include hrun

/-- A reaction of a settled promise runs to its end or breaks off; others may be registered inside it. -/
theorem react_now (hw : w.PromiseIs p (Engine.outcome fulfil v)) (r : Reaction) :
    ∃ inner, Late fulfil v inner ∧
      ((∃ w', (Engine.react run cx p r fulfil v).run w = .ok () w' ∧
        w.Went p (.began r fulfil v :: (inner ++ [.ended r])) w' (Engine.outcome fulfil v)) ∨
      ∃ stop w', (Engine.react run cx p r fulfil v).run w = .error stop w' ∧
        w.Went p (.began r fulfil v :: inner) w' (Engine.outcome fulfil v)) := by
  have hbegan := hw.observe (.began r fulfil v)
  have hreact : Conserves (Unfolds p) (run.react cx r fulfil v) := hrun.react
  obtain ⟨inner, s, hreaches, hwent⟩ := hreact _ _ hbegan.state
  obtain ⟨rfl, hlate⟩ := hreaches.of_outcome rfl
  have hobserve : (Engine.observe p (.began r fulfil v)).run w =
    .ok () (w.observe p (.began r fulfil v)) := rfl
  refine ⟨inner, hlate, ?_⟩
  rw [Engine.react, Engine.run_bind_of_ok hobserve]
  cases hr : (run.react cx r fulfil v).run (w.observe p (.began r fulfil v)) with
  | ok _ w' =>
    rw [Engine.after_of_ok hr] at hwent
    refine .inl ⟨_, Engine.run_bind_of_ok hr, ?_⟩
    exact hbegan.trans (hwent.trans (hwent.state.observe (.ended r)))
  | error stop w' =>
    rw [Engine.after_of_error hr] at hwent
    exact .inr ⟨_, _, Engine.run_bind_of_error hr, hbegan.trans hwent⟩

/-- Reactions of a settled promise run in turn. -/
theorem forM_now (hw : w.PromiseIs p (Engine.outcome fulfil v)) (rs : List Reaction) :
    ∃ turn due, InTurn fulfil v rs turn due ∧
      w.Went p turn ((rs.forM (Engine.react run cx p · fulfil v)).after w) (Engine.outcome fulfil v) := by
  induction rs generalizing w with
  | nil => exact ⟨[], [], .nil, .refl hw⟩
  | cons r rs ih =>
    obtain ⟨inner, hlate, ⟨w', hr, hwent⟩ | ⟨stop, w', hr, hwent⟩⟩ := react_now hrun cx hw r
    · obtain ⟨turn, due, hturn, hrest⟩ := ih hwent.state
      refine ⟨_, due, .ran r hlate hturn, ?_⟩
      rw [Engine.after, List.forM, Engine.run_bind_of_ok hr, ← Engine.after]
      simpa using hwent.trans hrest
    · refine ⟨_, rs, .broke r hlate, ?_⟩
      rw [List.forM, Engine.after_of_error (Engine.run_bind_of_error hr)]
      exact hwent

/-- **Settling a pending promise** gives it its outcome, and the reactions that wait run in turn. -/
theorem settle_now {o waiting} (ho : w.object? p = some o) (hk : o.kind = .promise (.pending waiting))
    (fulfil : Bool) (v : ForeignValue) : ∃ turn due, InTurn fulfil v waiting turn due ∧
      w.Went p (.settled fulfil v :: turn) ((Engine.settle run cx p fulfil v).after w)
        (Engine.outcome fulfil v) := by
  have hfix := Went.fix ho (Engine.outcome fulfil v)
  have hsettled := hfix.trans (hfix.state.observe (.settled fulfil v))
  obtain ⟨turn, due, hturn, hwent⟩ := forM_now hrun cx hsettled.state waiting
  rw [Engine.after, Engine.run_settle ho hk, ← Engine.after]
  exact ⟨turn, due, hturn, hsettled.trans hwent⟩

/-- **To settle any promise** is a step of the one in question, or does not touch it. -/
theorem settle (q : ObjectId) (fulfil : Bool) (v : ForeignValue) :
    Conserves (Unfolds p) (Engine.settle run cx q fulfil v) := by
  by_cases hq : q = p
  · subst hq
    intro w s hs
    cases ho : w.object? q with
    | none =>
      rw [Engine.after_of_error (Engine.run_settle_gone ho)]
      exact ⟨[], s, .refl s, .refl hs⟩
    | some o =>
      by_cases hp : w.IsPending q
      · obtain ⟨o, waiting, ho, hk⟩ := hp
        obtain rfl := hs.object o _ ho hk
        obtain ⟨turn, due, hturn, hwent⟩ := settle_now hrun cx ho hk fulfil v
        rw [← List.append_nil waiting] at hturn
        refine ⟨_, _, ?_, hwent⟩
        simpa using PromiseState.Reaches.settle rfl hturn .nil
      · rw [Engine.after_of_ok (Engine.run_settle_of_not_pending ho hp)]
        exact ⟨[], s, .refl s, .refl hs⟩
  · exact .settleWith hrun (fun _ => modifyObject (.inl hq)) fun _ => observe_ne hq

/-- **A reaction that is registered with a settled promise** runs at once. -/
theorem late_now (hw : w.PromiseIs p (Engine.outcome fulfil v)) (r : Reaction) :
    ∃ t, Late fulfil v (.registered r :: .began r fulfil v :: t) ∧
      w.Went p (.registered r :: .began r fulfil v :: t) ((do
        Engine.observe p (.registered r)
        Engine.hold v.refs
        Engine.react run cx p r fulfil v).after w) (Engine.outcome fulfil v) := by
  let w₁ := (w.observe p (.registered r)).holding v.refs
  have hregistered : w.Went p [.registered r] w₁ (Engine.outcome fulfil v) :=
    ⟨trace_observe w p _, ⟨hw.object, hw.fresh⟩⟩
  have hbegin : (do
      Engine.observe p (.registered r)
      Engine.hold v.refs
      Engine.react run cx p r fulfil v : Engine Unit).run w =
    (Engine.react run cx p r fulfil v).run w₁ := rfl
  rw [Engine.after, hbegin, ← Engine.after]
  obtain ⟨inner, hlate, ⟨w', hr, hwent⟩ | ⟨stop, w', hr, hwent⟩⟩ :=
    react_now hrun cx hregistered.state r
  · rw [Engine.after_of_ok hr]
    exact ⟨_, .ran r hlate .nil, hregistered.trans hwent⟩
  · rw [Engine.after_of_error hr]
    exact ⟨_, .broke r hlate .nil, by simpa using hregistered.trans hwent⟩

/-- **So is registering a reaction**. -/
theorem onSettled (q : ObjectId) (r : Reaction) :
    Conserves (Unfolds p) (Engine.onSettled run cx q r) := by
  by_cases hq : q = p
  · subst hq
    refine .bind .checkOwned fun _ => .bind' .object fun w o w' hobject s hs => ?_
    obtain ⟨rfl, ho⟩ := Engine.object_ok hobject
    have hlate (fulfil v) (hk : o.kind = .promise (Engine.outcome fulfil v)) :
        ∃ t s', s.Reaches t s' ∧ w'.Went q t ((do
          Engine.observe q (.registered r)
          Engine.hold v.refs
          Engine.react run cx q r fulfil v).after w') s' := by
      obtain rfl := hs.object o _ ho hk
      obtain ⟨t, hlate, hwent⟩ := late_now hrun cx hs r
      exact ⟨_, _, .stay rfl hlate, hwent⟩
    split
    · next waiting hk =>
      obtain rfl := hs.object o _ ho hk
      have hfix := Went.fix ho (.pending (waiting ++ [r]))
      exact ⟨_, _, .wait waiting [r], hfix.trans (hfix.state.observe (.registered r))⟩
    · exact hlate true _ ‹_›
    · exact hlate false _ ‹_›
    · exact ⟨[], s, .refl s, .refl hs⟩
  · exact .onSettledWith hrun (fun _ => modifyObject (.inl hq)) fun _ => observe_ne hq

end

/-! ## Sessions -/

theorem wrap {cx obj data} : Conserves (Unfolds p) (Engine.wrap cx obj data) :=
  .wrapWith (modifyObject (.inr fun _ => rfl))

theorem bindHandle {cx id obj} : Conserves (Unfolds p) (Engine.bindHandle cx id obj) :=
  .bindHandleWith wrap (.modify fun _ => of_eq rfl rfl)

theorem connect {cx d source} : Conserves (Unfolds p) (Engine.connect cx d source) :=
  fun w => of_holdings (Steady.connect_holdings w).1

instance : Steady (Unfolds p) where
  addObject w _ hs _ _ _ := addObject w hs
  createWithPrototype _ _ :=
    .withPrototype (.update (fun w => addObject w nofun) fun _ => .bind .hold fun _ => .pure)
  put _ _ _ := modifyObject (.inr fun _ => rfl)
  addFinalizer _ _ _ := .bind .checkOwned fun _ => modifyObject (.inr fun _ => rfl)
  wrap _ _ _ := wrap
  attachNew _ _ _ := ⟨_, .of_conserves fun _ _ h => .bind (fun _ => of_eq rfl rfl) fun _ =>
    .attachWith (fun _ _ => connect) (fun _ => .modify fun _ => of_eq rfl rfl) bindHandle h⟩
  connect _ _ _ := connect
  setSubscriber w _ _ _ _ _ := of_holdings (Steady.setSubscriber_holdings w ..).1
  modifyRoots _ := .modify fun _ => of_eq rfl rfl
  nameHandle _ _ _ _ _ _ :=
    Conserves.nameHandleWith (fun _ => .modify fun _ => of_eq rfl rfl) (of_eq rfl rfl)
  bindNamed _ _ _ := .bindNamedWith (fun _ => .modify fun _ => of_eq rfl rfl) fun _ => bindHandle
  settle := settle
  onSettled := onSettled

/-- **Every session unfolds each promise** step by step. -/
theorem steps (w : World) (ss : List Script.Step) : Unfolds p w (Session.steps w ss).2 :=
  Steady.steps (fun _ _ _ => of_eq rfl rfl) w ss

/-- A promise that is made in the course of a session starts as one that no one waits for. -/
theorem of_new {plans} (h : Unfolds p { plans } w) :
    ∃ s, (PromiseState.pending []).Reaches (w.trace p) s ∧ w.PromiseIs p s := by
  have hnone : World.object? { plans } p = none := rfl
  have hnew : World.PromiseIs { plans } p (.pending []) :=
    ⟨fun _ _ ho => (nomatch hnone.symm.trans ho), fun _ => rfl⟩
  obtain ⟨t, s, hreaches, hwent⟩ := h _ hnew
  have ht : w.trace p = t := hwent.trace
  exact ⟨s, ht ▸ hreaches, hwent.state⟩

end Unfolds

/-! ## At any moment -/

/-- What becomes of settling a promise and of registering a reaction with it. -/
structure World.Responds (w : World) (n : Nat) (cx : ContextId) (p : ObjectId) : Prop where
  /-- A pending promise gets the outcome, and the reactions that wait run in turn. -/
  settles : ∀ o waiting fulfil v, w.object? p = some o → o.kind = .promise (.pending waiting) →
    ∃ turn due, InTurn fulfil v waiting turn due ∧
      ((Engine.settle (Session.runner n) cx p fulfil v).after w).trace p =
        w.trace p ++ .settled fulfil v :: turn
  /-- A settled one stays as it is. -/
  stays : ∀ o state fulfil v, w.object? p = some o → o.kind = .promise state →
    (∀ waiting, state ≠ .pending waiting) →
      (Engine.settle (Session.runner n) cx p fulfil v).run w = .ok () w
  /-- With a pending promise a reaction waits, behind those that wait already. -/
  waits : ∀ o waiting r, w.object? p = some o → o.context = cx →
    o.kind = .promise (.pending waiting) → (Engine.onSettled (Session.runner n) cx p r).run w =
      .ok () ((w.fix p (.pending (waiting ++ [r]))).observe p (.registered r))
  /-- With a settled one it begins at once. -/
  late : ∀ o fulfil v r, w.object? p = some o → o.context = cx →
    o.kind = .promise (Engine.outcome fulfil v) →
      ∃ t, Late fulfil v (.registered r :: .began r fulfil v :: t) ∧
        ((Engine.onSettled (Session.runner n) cx p r).after w).trace p =
          w.trace p ++ .registered r :: .began r fulfil v :: t
  /-- A reaction begins before its script runs, and ends when that has come to its end. -/
  runs : ∀ r fulfil v, (Engine.react (Session.runner (n + 1)) cx p r fulfil v).run w = (do
    Session.runReaction (Session.runner n) cx r fulfil v
    Engine.observe p (.ended r) : Engine Unit).run (w.observe p (.began r fulfil v))

/-- **How reactions run**, in any world. -/
theorem World.responds (w : World) (n : Nat) (cx : ContextId) (p : ObjectId) : w.Responds n cx p where
  settles o waiting fulfil v ho hk := by
    obtain ⟨turn, due, hturn, hwent⟩ := Unfolds.settle_now (runs n) cx ho hk fulfil v
    exact ⟨turn, due, hturn, hwent.trace⟩
  stays o state fulfil v ho hk hs := by
    refine Engine.run_settle_of_not_pending ho ?_
    rintro ⟨o', waiting, ho', hk'⟩
    cases ho.symm.trans ho'
    cases hk.symm.trans hk'
    exact hs waiting rfl
  waits o waiting r ho hc hk := by
    rw [Engine.onSettled, Engine.run_bind_of_ok (Engine.run_checkOwned ho hc),
      Engine.run_bind_of_ok (Engine.run_object ho), hk]
    rfl
  late o fulfil v r ho hc hk := by
    obtain ⟨t, hlate, hwent⟩ := Unfolds.late_now (runs n) cx (.of_object ho hk) r
    refine ⟨t, hlate, ?_⟩
    rw [Engine.onSettled, Engine.after, Engine.run_bind_of_ok (Engine.run_checkOwned ho hc),
      Engine.run_bind_of_ok (Engine.run_object ho), hk, ← hwent.trace]
    cases fulfil <;> rfl
  runs _ _ _ := rfl

/-- **Promises in sessions.**  At any moment of a session a promise was settled at most once and has the
state that its trace leads to, and its reactions ran in turn; later moments only add to the trace.  And at
any moment it can be settled if it is pending, and reactions can be registered with it. -/
theorem Session.reactions (plans : Plans) (ss ss' : List Script.Step) (p : ObjectId) :
    let w := (steps { plans } ss).2
    Course (w.trace p) ∧ (outcomes (w.trace p)).length ≤ 1 ∧
      (∀ o s, w.object? p = some o → o.kind = .promise s → s = state (w.trace p)) ∧
      w.trace p <+: (steps w ss').2.trace p ∧ ∀ (u : World) n cx, u.Responds n cx p := by
  intro w
  have hw : Unfolds p { plans } w := Unfolds.steps { plans } ss
  clear_value w
  obtain ⟨s, hreaches, hstate⟩ := hw.of_new
  obtain ⟨t, s', -, hwent⟩ := Unfolds.steps w ss' s hstate
  obtain ⟨hcourse, rfl⟩ := hreaches.course
  exact ⟨hcourse, hcourse.once, hstate.object, ⟨t, hwent.trace.symm⟩, fun u n cx => u.responds n cx p⟩

/-! ## Reactions that do not run in the order of their registration -/

namespace Reactions

/-- A promise is made, and gets the reactions before it is settled. -/
def settling (reactions : List (String × List Script.Step)) : List Script.Step :=
  [.mk (.onContext (.create "main" .bare)) none, .mk (.onLoop (.newPromise "p")) none] ++
    reactions.map (fun (label, body) => .mk (.onLoop (.onSettled (.variable "p") label body)) none) ++
    [.mk (.onLoop (.settle "p" true (.bool true))) none]

/-- The first of two reactions registers another. -/
def nested : List Script.Step :=
  settling [("a", [.mk (.onLoop (.onSettled (.variable "p") "c" [])) none]), ("b", [])]

/-- The first of two reactions attaches data to an object that has some. -/
def broken : List Script.Step :=
  settling [("a", [.mk (.onObject (.wrap (.variable "p") .unit)) none,
    .mk (.onObject (.wrap (.variable "p") .unit)) none]), ("b", [])]

/-- The labels of reactions. -/
def labels (rs : List Reaction) : List String :=
  rs.map (·.label)

end Reactions

open Reactions in
set_option maxRecDepth 100000 in
/-- A reaction that is registered inside another one overtakes those that wait, and one that breaks off
keeps those behind it from running. -/
theorem Session.reactions_overtaken :
    labels (registered ((steps {} nested).2.trace ⟨3⟩)) = ["a", "b", "c"] ∧
      labels (begun ((steps {} nested).2.trace ⟨3⟩)) = ["a", "c", "b"] ∧
      outcomes ((steps {} broken).2.trace ⟨3⟩) = [(true, .bool true)] ∧
      labels (registered ((steps {} broken).2.trace ⟨3⟩)) = ["a", "b"] ∧
      labels (begun ((steps {} broken).2.trace ⟨3⟩)) = ["a"] := by
  refine ⟨?_, ?_, ?_, ?_, ?_⟩ <;> cbv

end Isthmus
