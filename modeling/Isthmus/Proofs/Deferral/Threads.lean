import Isthmus.Proofs.Deferral.Tracking
import Mathlib.Logic.Relation

/-!
# Proofs/Deferral/Threads — deferreds that several threads work on

Each thread has an agenda, and the threads take their steps in any order.  A step of an action is what
the lock of a deferred makes one; the continuation that it calls for is a task of its own, so other
threads may get in between.  A script that one thread works off is the case of one agenda at a time
(`Reachable.perform`).

`Threads.continuedOnce`: only the first completion of a deferred succeeds and fixes it for good, and the
continuations that run, or are about to run, are those that are called for, each once.
-/

namespace Isthmus.Deferrals

/-- Threads that work on the same deferreds. -/
structure Threads where
  shared : Deferrals := {}
  agendas : List (List Task) := []

namespace Threads

/-- A thread sets out to do an action, or does the next task of its agenda. -/
inductive Move : Threads → Threads → Prop where
  | start (s : Deferrals) (agendas : List (List Task)) (a : DeferralAction) (inner : Bool) :
      Move ⟨s, agendas⟩ ⟨{ s with answer := none, log := [] }, [.act a inner] :: agendas⟩
  | step (s : Deferrals) (before after : List (List Task)) (task : Task) (rest : List Task) :
      Move ⟨s, before ++ (task :: rest) :: after⟩
        ⟨(s.step (rest ++ (before ++ after).flatten) task).1,
          before ++ ((s.step (rest ++ (before ++ after).flatten) task).2 ++ rest) :: after⟩

/-- Any number of moves. -/
abbrev Moves : Threads → Threads → Prop := Relation.ReflTransGen Move

/-- What some run leads to. -/
def Reachable (t : Threads) : Prop :=
  Moves {} t

/-! ## What every run keeps -/

/-- What holds between moves: besides what the steps keep, a continuation that waits is the next thing
that its thread does. -/
structure Sound (t : Threads) : Prop where
  tracked : Tracked t.shared t.agendas.flatten
  next : ∀ agenda ∈ t.agendas, Idle agenda.tail

theorem sound_nil : Sound {} where
  tracked :=
    { handled := ⟨⟨.nil, rfl⟩, nofun, nofun⟩
      faithful := ⟨nofun, fun _ => ⟨rfl, rfl⟩⟩
      present := fun _ => iff_of_false Bool.false_ne_true fun h => Nat.not_lt_zero _ h.1
      told := ⟨.nil, nofun, fun {newer} _ _ _ _ _ h => by cases newer <;> cases h⟩
      settled := .nil }
  next := nofun

end Threads

variable {s s' : Deferrals} {task : Task} {more others : List Task}

/-- A continuation that a task calls for comes first. -/
theorem Does.tail_idle (hd : Does s others task s' more) : Idle more.tail := by
  have htail {tasks : List Task} (h : Idle tasks) : Idle tasks.tail :=
    fun t ht => h t (List.mem_of_mem_tail ht)
  have hcall (k : Option Later) (status : DeferredStatus) (v : NativeValue) {tasks : List Task}
      (h : Idle tasks) : Idle (k.toList.map (Task.continueWith · status v) ++ tasks).tail := by
    cases k with
    | none => exact htail h
    | some k => exact h
  cases hd with
  | aside _ _ hm | create _ _ _ _ _ _ _ _ hm | refuse _ _ _ _ hm => exact htail hm
  | attach _ _ _ _ _ _ hm | run _ hm => exact htail hm
  | late _ _ _ _ _ _ hm => exact hm
  | complete _ _ _ _ _ _ _ hm => exact hcall _ _ _ hm
  | stay => exact idle_nil
  | gone => exact hcall _ _ _ (.map fun _ => rfl)

/-- The history only grows. -/
theorem Does.history (hd : Does s others task s' more) : s.history <:+ s'.history := by
  cases hd with
  | aside hk => exact hk.history ▸ List.suffix_refl _
  | create _ hh => exact hh ▸ List.suffix_refl _
  | stay => exact List.suffix_refl _
  | refuse hk | complete hk => exact hk.history ▸ List.suffix_cons ..
  | run hk => exact hk.history ▸ List.suffix_cons ..
  | attach | late | gone => exact List.suffix_cons ..

/-- Only the turn of a continuation is one more that began. -/
theorem Does.begun (hd : Does s others task s' more)
    (ht : ∀ k status v, task ≠ .continueWith k status v) :
    Deferrals.begun s'.history = Deferrals.begun s.history := by
  cases hd with
  | aside hk => exact congrArg _ hk.history
  | create _ hh => exact congrArg _ hh
  | refuse hk | complete hk =>
    simp only [Deferrals.tell, Deferrals.begun]
    exact congrArg _ hk.history
  | run => exact absurd rfl (ht _ _ _)
  | stay => rfl
  | attach | late | gone => rfl

namespace Threads

variable {t t' : Threads}

theorem flatten_perm (before after : List (List Task)) (agenda : List Task) :
    (before ++ agenda :: after).flatten.Perm (agenda ++ (before ++ after).flatten) := by
  rw [List.flatten_append, List.flatten_cons, List.flatten_append]
  exact List.perm_append_comm_assoc ..

/-- **A move keeps what holds**, and the history only grows. -/
theorem Sound.move (ht : Sound t) (hm : Move t t') :
    Sound t' ∧ t.shared.history <:+ t'.shared.history := by
  cases hm with
  | start s agendas a inner =>
    refine ⟨⟨ht.tracked.start a inner, fun agenda ha => ?_⟩, List.suffix_refl _⟩
    obtain rfl | ha := List.mem_cons.1 ha
    · exact idle_nil
    · exact ht.next agenda ha
  | step s before after task rest =>
    have hrest : Idle rest :=
      ht.next (task :: rest) (List.mem_append_right _ (List.mem_cons_self ..))
    have htracked : Tracked s (task :: (rest ++ (before ++ after).flatten)) :=
      ht.tracked.perm (flatten_perm before after (task :: rest))
    have hdoes := does_step htracked.handled.named (rest ++ (before ++ after).flatten) task
    refine ⟨⟨htracked.step.perm ?_, fun agenda ha => ?_⟩, hdoes.history⟩
    · rw [← List.append_assoc]
      exact (flatten_perm before after _).symm
    · obtain ha | ha := List.mem_append.1 ha
      · exact ht.next agenda (List.mem_append_left _ ha)
      · obtain rfl | ha := List.mem_cons.1 ha
        · cases hmore : (s.step (rest ++ (before ++ after).flatten) task).2 with
          | nil => exact fun t ht => hrest t (List.mem_of_mem_tail ht)
          | cons next more =>
            have htail := hdoes.tail_idle
            rw [hmore] at htail
            exact htail.append hrest
        · exact ht.next agenda (List.mem_append_right _ (List.mem_cons_of_mem _ ha))

theorem Sound.moves (ht : Sound t) (hm : Moves t t') :
    Sound t' ∧ t.shared.history <:+ t'.shared.history := by
  induction hm with
  | refl => exact ⟨ht, List.suffix_refl _⟩
  | tail _ hm ih =>
    obtain ⟨hsound, hsuffix⟩ := ih.1.move hm
    exact ⟨hsound, ih.2.trans hsuffix⟩

theorem Reachable.sound (ht : t.Reachable) : Sound t :=
  (sound_nil.moves ht).1

/-! ## One thread -/

/-- One thread works its agenda off while the others have nothing to do. -/
theorem moves_run {steps : Nat} {s s' : Deferrals} {tasks : List Task} {idle : List (List Task)}
    (hi : idle.flatten = []) (hr : Agenda.run step steps s tasks = some s') :
    Moves ⟨s, tasks :: idle⟩ ⟨s', [] :: idle⟩ := by
  induction steps generalizing s tasks with
  | zero =>
    cases tasks with
    | nil =>
      cases hr
      exact .refl
    | cons task rest => cases hr
  | succ steps ih =>
    cases tasks with
    | nil =>
      cases hr
      exact .refl
    | cons task rest =>
      have hm := Move.step s [] idle task rest
      rw [List.nil_append, List.nil_append, List.nil_append, hi, List.append_nil] at hm
      exact .head hm (ih hr)

/-- A script is a run of one thread. -/
theorem Reachable.perform {s s' : Deferrals} {idle : List (List Task)} {a : DeferralAction}
    {answer : Option Document} {log : List Document} (ht : Reachable ⟨s, idle⟩)
    (hi : idle.flatten = []) (hp : s.perform a = some (answer, log, s')) :
    Reachable ⟨s', [] :: idle⟩ := by
  obtain ⟨s₁, hrun, heq⟩ := Option.bind_eq_some_iff.1 hp
  cases heq
  exact (ht.tail (.start s idle a false)).trans (moves_run hi hrun)

/-- What the actions of a script lead to, done one after the other; one that does not end is left out. -/
def alone (script : List DeferralAction) : Deferrals :=
  script.foldl (fun s a => ((s.perform a).map (·.2.2)).getD s) {}

theorem reachable_alone (script : List DeferralAction) :
    ∃ idle : List (List Task), idle.flatten = [] ∧ Reachable ⟨alone script, idle⟩ := by
  suffices hall : ∀ (s : Deferrals) (idle : List (List Task)), idle.flatten = [] →
      Reachable ⟨s, idle⟩ → ∃ idle' : List (List Task), idle'.flatten = [] ∧
        Reachable ⟨script.foldl (fun s a => ((s.perform a).map (·.2.2)).getD s) s, idle'⟩ from
    hall {} [] rfl .refl
  induction script with
  | nil => exact fun s idle hi ht => ⟨idle, hi, ht⟩
  | cons a script ih =>
    intro s idle hi ht
    rw [List.foldl_cons]
    cases hp : s.perform a with
    | none => exact ih s idle hi ht
    | some x =>
      obtain ⟨answer, log, s'⟩ := x
      exact ih s' ([] :: idle) (by rw [List.flatten_cons, hi]; rfl) (ht.perform hi hp)

/-! ## The law -/

/-- What is logged of a continuation that begins to run. -/
def entry (s : Deferrals) (k : Later) (status : DeferredStatus) (v : NativeValue) : Document :=
  .record [("then", .text k.label), ("status", .text status.name), ("value", v.toDocument s.scene)]

/-- **How deferreds are completed and continued**, in whatever order threads and continuations do what
they do. -/
structure Continues (t : Threads) : Prop where
  /-- Of the completions of a deferred, the first was accepted and those after it were not. -/
  accepted : ∀ newer d status v answer older,
    t.shared.history = newer ++ .tried d status v answer :: older →
      (answer = true ↔ status ≠ .pending ∧ outcome? d older = none)
  /-- A completion that comes next is answered so, and noted with its answer. -/
  answered : ∀ name d r v, t.shared.find? name = some d → (t.shared.build r).1 = some v →
    ∀ status inner others, ∃ answer : Bool,
      (answer = true ↔ status ≠ .pending ∧ outcome? d t.shared.history = none) ∧
      (t.shared.step others (.act (.complete name status r) inner)).1.history =
        .tried d status v answer :: t.shared.history ∧
      .answer (some (.bool answer)) inner ∈
        (t.shared.step others (.act (.complete name status r) inner)).2
  /-- Status and value of a deferred are those of its outcome. -/
  shown : ∀ d cell, t.shared.cell? d = some cell → outcome? d t.shared.history =
    if cell.status = .pending then none else some (cell.status, cell.value)
  /-- An outcome is one for good. -/
  lasting : ∀ t', t.Moves t' → ∀ d o, outcome? d t.shared.history = some o →
    outcome? d t'.shared.history = some o
  /-- A deferred that is gone has no handle. -/
  gone : ∀ d, .gone d ∈ t.shared.history → d ∉ t.shared.handles
  /-- One that is not gone has a handle or is about to be let go. -/
  held : ∀ d, d.index < t.shared.cells.next → .gone d ∉ t.shared.history →
    d ∈ t.shared.handles ∨ .letGo d ∈ t.agendas.flatten
  /-- A continuation that is attached next is noted, with its label and its body. -/
  attached : ∀ name d, t.shared.find? name = some d → ∀ label body inner others,
    (t.shared.step others (.act (.attach name label body) inner)).1.history =
      .attached d ⟨t.shared.attachments, label, body⟩ :: t.shared.history
  /-- The continuations that ran, and those that wait to, are those that are called for, with the outcome
  that they are called for with. -/
  called : ∀ k o, .ran k o.1 o.2 ∈ t.shared.history ∨ (k, o) ∈ waiting t.agendas.flatten ↔
    Called t.shared.history k o
  /-- No continuation is among them twice. -/
  once : ((begun t.shared.history ++ waiting t.agendas.flatten).map (·.1.serial)).Nodup
  /-- A continuation that waits is the next thing that its thread does. -/
  next : ∀ agenda ∈ t.agendas, waiting agenda.tail = []
  /-- A continuation whose turn it is runs: it is logged under its label with the outcome that it has, and
  what its body asks for is what its thread does next. -/
  runs : ∀ {before after : List (List Task)} {rest : List Task} {k : Later} {status : DeferredStatus}
    {v : NativeValue}, t.agendas = before ++ (.continueWith k status v :: rest) :: after →
      Move t ⟨(t.shared.tell (.ran k status v)).note (entry t.shared k status v),
        before ++ (k.body.map (Task.act · true) ++ rest) :: after⟩
  /-- No continuation begins in another way. -/
  begins : ∀ {t' : Threads}, Move t t' → begun t'.shared.history = begun t.shared.history ∨
    ∃ before after rest k status v,
      t.agendas = before ++ (.continueWith k status v :: rest) :: after ∧
      t' = ⟨(t.shared.tell (.ran k status v)).note (entry t.shared k status v),
        before ++ (k.body.map (Task.act · true) ++ rest) :: after⟩

/-- What a completion answers, and what is noted of it: whether it is the first. -/
theorem Sound.answered (ht : Sound t) {name : String} {d : DeferredId} {r : Recipe} {v : NativeValue}
    (hf : t.shared.find? name = some d) (hv : (t.shared.build r).1 = some v) (status : DeferredStatus)
    (inner : Bool) (others : List Task) : ∃ answer : Bool,
      (answer = true ↔ status ≠ .pending ∧ outcome? d t.shared.history = none) ∧
      (t.shared.step others (.act (.complete name status r) inner)).1.history =
        .tried d status v answer :: t.shared.history ∧
      .answer (some (.bool answer)) inner ∈
        (t.shared.step others (.act (.complete name status r) inner)).2 := by
  obtain ⟨cell, hcell⟩ := Option.isSome_iff_exists.1
    (ht.tracked.handled.born d (mem_handles_of_find? hf))
  have hr := ht.tracked.faithful.cells hcell
  obtain ⟨hkeeps, -⟩ := build_keeps ht.tracked.handled.named r []
  rw [step, act, hf]
  generalize t.shared.build r = built at hv hkeeps
  obtain ⟨_, s₁⟩ := built
  cases hv
  dsimp only
  rw [hkeeps.cell?, hcell, Option.bind_some, Deferred.complete]
  have hpending : cell.status = .pending ↔ outcome? d t.shared.history = none := by
    rw [hr.outcome]
    split
    · next hp => exact iff_of_true hp rfl
    · next hp => exact iff_of_false hp (Option.some_ne_none _)
  by_cases hp : cell.status = .pending ∧ status ≠ .pending
  · rw [if_pos hp]
    exact ⟨true, iff_of_true rfl ⟨hp.2, hpending.1 hp.1⟩, congrArg _ hkeeps.history,
      List.mem_append_right _ (List.mem_cons_of_mem _ (List.mem_singleton_self _))⟩
  · rw [if_neg hp]
    exact ⟨false, iff_of_false Bool.false_ne_true fun h => hp ⟨hpending.2 h.2, h.1⟩,
      congrArg _ hkeeps.history, List.mem_singleton_self _⟩

theorem Sound.attached (ht : Sound t) {name : String} {d : DeferredId}
    (hf : t.shared.find? name = some d) (label : String) (body : List DeferralAction) (inner : Bool)
    (others : List Task) :
    (t.shared.step others (.act (.attach name label body) inner)).1.history =
      .attached d ⟨t.shared.attachments, label, body⟩ :: t.shared.history := by
  obtain ⟨cell, hcell⟩ := Option.isSome_iff_exists.1
    (ht.tracked.handled.born d (mem_handles_of_find? hf))
  rw [step, act, hf]
  dsimp only
  rw [hcell]
  rfl

theorem Sound.begins (ht : Sound t) (hm : Move t t') :
    begun t'.shared.history = begun t.shared.history ∨
    ∃ before after rest k status v,
      t.agendas = before ++ (.continueWith k status v :: rest) :: after ∧
      t' = ⟨(t.shared.tell (.ran k status v)).note (entry t.shared k status v),
        before ++ (k.body.map (Task.act · true) ++ rest) :: after⟩ := by
  cases hm with
  | start => exact .inl rfl
  | step s before after task rest =>
    by_cases hrun : ∃ k status v, task = .continueWith k status v
    · obtain ⟨k, status, v, rfl⟩ := hrun
      exact .inr ⟨before, after, rest, k, status, v, rfl, rfl⟩
    · exact .inl ((does_step ht.tracked.handled.named _ task).begun fun k status v heq =>
        hrun ⟨k, status, v, heq⟩)

/-- **A deferred is completed once, and each continuation that is called for runs once**, after every run:
whatever actions threads do on deferreds, in any order and in continuations too.  What a script leads to is
what such a run leads to. -/
theorem continuedOnce : (∀ t : Threads, t.Reachable → t.Continues) ∧
    ∀ script, ∃ t : Threads, t.Reachable ∧ t.shared = alone script ∧ t.agendas.flatten = [] := by
  refine ⟨fun t ht => ?_, fun script => ?_⟩
  · have hsound := ht.sound
    obtain ⟨hhandled, hfaithful, hpresent, htold, hsettled⟩ := hsound.tracked
    exact {
      accepted := fun _ _ _ _ _ _ => htold.answered
      answered := fun _ _ _ _ hf hv => hsound.answered hf hv
      shown := fun _ _ hc => (hfaithful.cells hc).outcome
      lasting := fun t' hm d o ho => by
        obtain ⟨newer, hnewer⟩ := (hsound.moves hm).2
        exact hnewer ▸ outcome?_append newer ho
      gone := fun d hg hd => ((hpresent d).1 (hhandled.born d hd)).2 hg
      held := fun d hn hg => hhandled.held d ((hpresent d).2 ⟨hn, hg⟩)
      attached := fun _ _ hf => hsound.attached hf
      called := fun k o => by
        rw [← mem_due, ← mem_begun, ← List.mem_append]
        exact hsettled.mem_iff
      once := ((hsettled.map _).nodup_iff).2 (nodup_due htold.nodup)
      next := fun agenda ha => (hsound.next agenda ha).waiting
      runs := fun {before after rest k status v} ha => by
        obtain ⟨s, agendas⟩ := t
        cases ha
        exact .step s before after (.continueWith k status v) rest
      begins := hsound.begins }
  · obtain ⟨idle, hi, ht⟩ := reachable_alone script
    exact ⟨_, ht, rfl, hi⟩

/-- A deferred, a continuation of it, its completion, and another that comes too late. -/
def twiceCompleted : List DeferralAction :=
  [.create "d", .attach "d" "f" [], .complete "d" .resolved (.int 7), .complete "d" .rejected .void]

theorem continuedOnce_of_twiceCompleted :
    (alone twiceCompleted).history =
      [.tried ⟨0⟩ .rejected .void false, .ran ⟨0, "f", []⟩ .resolved (.int 7),
        .tried ⟨0⟩ .resolved (.int 7) true, .attached ⟨0⟩ ⟨0, "f", []⟩] ∧
    ∃ t : Threads, t.Reachable ∧ t.shared = alone twiceCompleted ∧
      Called t.shared.history ⟨0, "f", []⟩ (.resolved, .int 7) := by
  refine ⟨rfl, ?_⟩
  obtain ⟨t, ht, hshared, -⟩ := continuedOnce.2 twiceCompleted
  have hran : .ran ⟨0, "f", []⟩ .resolved (.int 7) ∈ t.shared.history := by
    rw [hshared]
    exact List.mem_cons_of_mem _ (List.mem_cons_self ..)
  exact ⟨t, ht, hshared, ((continuedOnce.1 t ht).called _ _).1 (.inl hran)⟩

end Threads

end Isthmus.Deferrals
