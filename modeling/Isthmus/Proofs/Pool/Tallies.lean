import Isthmus.Pool.Basic

/-!
# Proofs/Pool/Tallies — what the books of a pool say

Whatever the threads of a pool do, one after the other in any order, the numbers of its jobs add up: each
job that was offered is accepted, refused or diverted once; what was accepted was taken or waits; what was
begun is finished or is being run.  Each law is shown for every kind of step (`Step`), and from that for every
run (`Reachable.rec'`).
-/

namespace Isthmus.Pool

variable {ι : Type}

/-! ## The history -/

/-- The jobs that were accepted, oldest first. -/
def accepted : List (Event ι) → List (Ticket ι)
  | .accepted t :: older => accepted older ++ [t]
  | _ :: older => accepted older
  | [] => []

/-- The jobs that workers took, oldest first. -/
def taken : List (Event ι) → List (Ticket ι)
  | .taken _ t :: older => taken older ++ [t]
  | _ :: older => taken older
  | [] => []

namespace Event

/-- A worker or a thread of its own begins to run the job. -/
def begins (n : Nat) : Event ι → Bool
  | taken _ t | began t => t.number = n
  | _ => false

/-- A job has been run, or has panicked. -/
def ends (n : Nat) : Event ι → Bool
  | done _ t _ | ended t _ => t.number = n
  | _ => false

/-- The job is handed back. -/
def refuses (n : Nat) : Event ι → Bool
  | refused t => t.number = n
  | _ => false

end Event

/-- How often a job was begun. -/
def begun (n : Nat) (h : List (Event ι)) : Nat :=
  h.countP (·.begins n)

/-- How often a job was done. -/
def finished (n : Nat) (h : List (Event ι)) : Nat :=
  h.countP (·.ends n)

/-- How often a job was handed back. -/
def refusals (n : Nat) (h : List (Event ι)) : Nat :=
  h.countP (·.refuses n)

/-- What is begun is counted job by job. -/
theorem begun_cons (n : Nat) (e : Event ι) (h : List (Event ι)) :
    begun n (e :: h) = begun n h + if e.begins n then 1 else 0 :=
  List.countP_cons

/-- So is what is finished. -/
theorem finished_cons (n : Nat) (e : Event ι) (h : List (Event ι)) :
    finished n (e :: h) = finished n h + if e.ends n then 1 else 0 :=
  List.countP_cons

/-- So is what is refused. -/
theorem refusals_cons (n : Nat) (e : Event ι) (h : List (Event ι)) :
    refusals n (e :: h) = refusals n h + if e.refuses n then 1 else 0 :=
  List.countP_cons

theorem mem_accepted {t : Ticket ι} {h : List (Event ι)} : t ∈ accepted h ↔ .accepted t ∈ h := by
  induction h with
  | nil => exact iff_of_false List.not_mem_nil List.not_mem_nil
  | cons e h ih =>
    cases e with
    | accepted t' =>
      rw [accepted, List.mem_append, List.mem_singleton, ih, List.mem_cons, Event.accepted.injEq, or_comm]
    | _ => simpa only [accepted, List.mem_cons, reduceCtorEq, false_or] using ih

/-! ## Steps -/

namespace Worker

/-- The worker is going round its loop and has no job. -/
def isFree : Worker ι → Bool
  | checking | receiving => true
  | _ => false

/-- The worker runs the job. -/
def runs (n : Nat) : Worker ι → Bool
  | working t => t.number = n
  | _ => false

/-- A free worker runs nothing. -/
theorem runs_of_isFree {w : Worker ι} (h : w.isFree) (n : Nat) : w.runs n = false := by
  cases w with
  | checking | receiving | gone => rfl
  | working t => cases h

end Worker

/-- What can happen in a pool. -/
inductive Step : Pool ι → Pool ι → Prop where
  | accepted {p} (job : ι) (h : p.isOpen) : Step p ({ p.issue with
      waiting := p.waiting ++ [p.ticket job] }.note (.accepted (p.ticket job)))
  | refused {p} (job : ι) (h : ¬ p.isOpen) : Step p (p.issue.note (.refused (p.ticket job)))
  | diverted {p} (job : ι) : Step p (p.issue.divert (p.ticket job))
  | began {p place t} (h : p.errands[place]? = some (t, .ready)) :
      Step p ({ p with errands := p.errands.set place (t, .running) }.note (.began t))
  | ended {p place t} (h : p.errands[place]? = some (t, .running)) (panicked : Bool) :
      Step p ({ p with errands := p.errands.set place (t, .finished) }.note (.ended t panicked))
  | moved {p worker w w'} (h : p.workers[worker]? = some w) (hw : w.isFree) (hw' : w'.isFree) :
      Step p (p.move worker w')
  | left {p worker w} (h : p.workers[worker]? = some w) (hw : w.isFree)
      (hl : p.isStopped ∨ ¬ p.isOpen ∧ p.waiting = []) : Step p (p.leave worker)
  | taken {p worker t rest} (h : p.workers[worker]? = some .receiving) (hw : p.waiting = t :: rest) :
      Step p (({ p with waiting := rest }.move worker (.working t)).note (.taken worker t))
  | done {p worker t} (h : p.workers[worker]? = some (.working t)) (panicked : Bool) :
      Step p ((p.move worker .checking).note (.done worker t panicked))
  | closed {p} (h : p.isOpen) :
      Step p ({ p with isOpen := false, closing := some {} }.note .closed)
  | late {p} (h : ¬ p.isOpen) : Step p (p.note (.reported false {}))
  | joined {p c} (h : p.closing = some c) (hw : p.workers[c.next]? = some .gone) : Step p { p with
      closing := some ⟨c.next + 1, { c.report with joined := c.report.joined + 1 }⟩ }
  | detached {p c} (h : p.closing = some c) (hn : c.next < p.size) : Step p { p with
      closing := some ⟨c.next + 1, { c.report with detached := c.report.detached + 1 }⟩ }
  | halted {p c} (h : p.closing = some c) (hn : p.size ≤ c.next) (hs : ¬ p.isStopped) :
      Step p ({ p with isStopped := true }.note .stopped)
  | concluded {p c} (h : p.closing = some c) (hs : p.isStopped) :
      Step p ({ p with closing := none }.note (.reported true c.report))

variable {p p' : Pool ι}

/-- To submit a job is a step. -/
theorem step_submit (p : Pool ι) (job : ι) : Step p (p.submit job).2 := by
  by_cases h : p.isOpen
  · have he : p.issue.enqueue? (p.ticket job) = some _ := if_pos h
    rw [submit, he]
    exact .accepted job h
  · have he : p.issue.enqueue? (p.ticket job) = none := if_neg h
    rw [submit, he]
    exact .refused job h

/-- So is to spawn one. -/
theorem step_spawn (p : Pool ι) (installed : Bool) (job : ι) : Step p (p.spawn installed job) := by
  rw [spawn]
  split
  · by_cases h : p.isOpen
    · have he : p.issue.enqueue? (p.ticket job) = some _ := if_pos h
      rw [he]
      exact .accepted job h
    · have he : p.issue.enqueue? (p.ticket job) = none := if_neg h
      rw [he]
      exact .diverted job
  · exact .diverted job

/-- So is to close the pool. -/
theorem step_shutDown (p : Pool ι) : Step p p.shutDown.2 := by
  rw [shutDown]
  split
  · next h => exact .closed h
  · next h => exact .late h

/-- **Each thing that a thread does is a step.** -/
theorem step_of_act {a : Act ι} (h : p.act a = some p') : Step p p' := by
  cases a with
  | submit job =>
    cases h
    exact step_submit p job
  | spawn installed job =>
    cases h
    exact step_spawn p installed job
  | beginErrand place =>
    rw [act, beginErrand] at h
    split at h
    · next t he =>
      cases h
      exact .began he
    · cases h
  | endErrand place panicked =>
    rw [act, endErrand] at h
    split at h
    · next t he =>
      cases h
      exact .ended he panicked
    · cases h
  | check worker =>
    rw [act, check] at h
    split at h
    · next hw =>
      cases h
      split
      · next hs => exact .left hw rfl (.inl hs)
      · exact .moved hw rfl rfl
    · cases h
  | receive worker =>
    rw [act, receive] at h
    split at h
    · next t rest hw hq =>
      cases h
      exact .taken hw hq
    · next hw hq =>
      split at h
      · cases h
      · next ho =>
        cases h
        exact .left hw rfl (.inr ⟨ho, hq⟩)
    · cases h
  | giveUp worker =>
    rw [act, giveUp] at h
    split at h
    · next hw =>
      cases h
      exact .moved hw rfl rfl
    · cases h
  | finish worker panicked =>
    rw [act, finish] at h
    split at h
    · next t hw =>
      cases h
      exact .done hw panicked
    · cases h
  | shutDown =>
    cases h
    exact step_shutDown p
  | join =>
    obtain ⟨c, hc, h⟩ := Option.bind_eq_some_iff.1 h
    split at h
    · next hw =>
      cases h
      exact .joined hc hw
    · cases h
  | detach =>
    obtain ⟨c, hc, h⟩ := Option.bind_eq_some_iff.1 h
    split at h
    · next hn =>
      cases h
      exact .detached hc hn
    · cases h
  | halt =>
    obtain ⟨c, hc, h⟩ := Option.bind_eq_some_iff.1 h
    split at h
    · cases h
    · next hn =>
      cases h
      simp only [Bool.or_eq_true, decide_eq_true_eq, not_or, Nat.not_lt] at hn
      exact .halted hc hn.1 hn.2
  | conclude =>
    obtain ⟨e, he, rfl⟩ := Option.map_eq_some_iff.1 h
    obtain ⟨c, hc, he⟩ := Option.bind_eq_some_iff.1 he
    split at he
    · next hs =>
      cases he
      exact .concluded hc hs
    · cases he

/-! ## Runs -/

/-- A pool that some run leads to, whatever its threads do in whichever order. -/
def Reachable (p : Pool ι) : Prop :=
  ∃ workers as, (start workers).acts as = some p

/-- Acts of a pool follow each other. -/
theorem acts_append (p : Pool ι) (as more : List (Act ι)) :
    p.acts (as ++ more) = (p.acts as).bind (·.acts more) := by
  induction as generalizing p with
  | nil => rfl
  | cons a as ih =>
    rw [List.cons_append, acts, acts]
    cases p.act a with
    | none => rfl
    | some p' => exact ih p'

/-- **Induction on runs**: what holds at the start and is kept by every step holds in every pool. -/
theorem Reachable.rec' {P : Pool ι → Prop} (start : ∀ workers, P (start workers))
    (step : ∀ p p', P p → Step p p' → P p') (h : Reachable p) : P p := by
  obtain ⟨workers, as, h⟩ := h
  have run (as : List (Act ι)) (p p' : Pool ι) (hp : P p) (h : p.acts as = some p') : P p' := by
    induction as generalizing p with
    | nil =>
      cases h
      exact hp
    | cons a as ih =>
      obtain ⟨p₁, ha, h⟩ := Option.bind_eq_some_iff.1 h
      exact ih p₁ (step p p₁ hp (step_of_act ha)) h
  exact run as _ p (start workers) h

/-- Acts lead from reachable pools to reachable ones. -/
theorem Reachable.acts (h : Reachable p) {as : List (Act ι)} (ha : p.acts as = some p') :
    Reachable p' := by
  obtain ⟨workers, before, h⟩ := h
  exact ⟨workers, before ++ as, by rw [acts_append, h, Option.bind_some, ha]⟩

/-! ## The tallies -/

/-- What the numbers of jobs add up to. -/
structure Tallied (p : Pool ι) : Prop where
  /-- A job that was offered was either accepted, or given a thread, or handed back. -/
  offered : ∀ n, (accepted p.history).countP (·.number = n) + p.errands.countP (·.1.number = n) +
    refusals n p.history = if n < p.offered then 1 else 0
  /-- A job that was accepted was taken or waits, in the order of acceptance. -/
  queued : taken p.history ++ p.waiting = accepted p.history
  /-- A job was begun by the worker that took it, or by its own thread. -/
  begun : ∀ n, begun n p.history = (taken p.history).countP (·.number = n) +
    p.errands.countP fun e => e.1.number = n && e.2 ≠ .ready
  /-- A job that was begun is finished, or is being run. -/
  running : ∀ n, Pool.begun n p.history = finished n p.history + p.workers.countP (·.runs n) +
    p.errands.countP fun e => e.1.number = n && e.2 = .running
  /-- Workers run what workers took. -/
  busy : ∀ n, p.workers.countP (·.runs n) ≤ (taken p.history).countP (·.number = n)

/-- Counting after one entry of a list has changed. -/
theorem countP_set {α : Type} {l : List α} {i : Nat} {a : α} (h : l[i]? = some a) (b : α)
    (f : α → Bool) : (l.set i b).countP f + (if f a then 1 else 0) =
      l.countP f + if f b then 1 else 0 := by
  obtain ⟨hi, rfl⟩ := List.getElem?_eq_some_iff.1 h
  rw [List.countP_set hi]
  have hle : (if f l[i] then 1 else 0) ≤ l.countP f := by
    split
    · next hf => exact List.countP_pos_iff.2 ⟨_, List.getElem_mem hi, hf⟩
    · exact Nat.zero_le _
  omega

/-- A worker that runs nothing goes on to run nothing. -/
theorem countP_runs_move {i : Nat} {w w' : Worker ι} {n : Nat} (h : p.workers[i]? = some w)
    (hw : w.runs n = false) (hw' : w'.runs n = false) :
    (p.move i w').workers.countP (·.runs n) = p.workers.countP (·.runs n) := by
  have hset := countP_set h w' (·.runs n)
  rwa [hw, hw'] at hset

theorem countP_runs_start (workers n : Nat) :
    (start workers : Pool ι).workers.countP (·.runs n) = 0 :=
  List.countP_eq_zero.2 fun w hw => by
    rw [List.eq_of_mem_replicate hw]
    exact Bool.false_ne_true

namespace Tallied

/-- A new pool has nothing to count. -/
theorem start (workers : Nat) : Tallied (start workers : Pool ι) where
  offered _ := rfl
  queued := rfl
  begun _ := rfl
  running n := (congrArg (0 + · + 0) (countP_runs_start workers n)).symm
  busy n := Nat.le_of_eq (countP_runs_start workers n)

/-- Each job that was offered is accepted, run at once or refused. -/
theorem step_offered (hp : Tallied p) (h : Step p p') (n : Nat) :
    (accepted p'.history).countP (·.number = n) + p'.errands.countP (·.1.number = n) +
      refusals n p'.history = if n < p'.offered then 1 else 0 := by
  have hn := hp.offered n
  cases h with
  | accepted job _ =>
    simp only [note, issue, ticket, accepted, List.countP_append, List.countP_singleton, refusals_cons,
      Event.refuses]
    grind
  | refused job _ =>
    simp only [note, issue, ticket, accepted, refusals_cons, Event.refuses]
    grind
  | diverted job =>
    simp only [note, issue, ticket, divert, accepted, List.countP_append, List.countP_singleton,
      refusals_cons, Event.refuses]
    grind
  | @began _ t he =>
    have hset := countP_set he (t, .running) (fun e => e.1.number = n)
    simp only [note, accepted, refusals_cons, Event.refuses]
    grind
  | @ended _ t he panicked =>
    have hset := countP_set he (t, .finished) (fun e => e.1.number = n)
    simp only [note, accepted, refusals_cons, Event.refuses]
    grind
  | _ => exact hn

/-- What was accepted and is not taken yet waits. -/
theorem step_queued (hp : Tallied p) (h : Step p p') :
    taken p'.history ++ p'.waiting = accepted p'.history := by
  have hq := hp.queued
  cases h with
  | accepted job _ =>
    change taken p.history ++ (p.waiting ++ [_]) = accepted p.history ++ [_]
    rw [← List.append_assoc, hq]
  | @taken _ t rest _ hw =>
    change taken p.history ++ [t] ++ rest = accepted p.history
    rw [← hq, hw, List.append_assoc]
    rfl
  | _ => exact hq

/-- What was begun was taken, or is run at once. -/
theorem step_begun (hp : Tallied p) (h : Step p p') (n : Nat) :
    Pool.begun n p'.history = (taken p'.history).countP (·.number = n) +
      p'.errands.countP fun e => e.1.number = n && e.2 ≠ .ready := by
  have hn := hp.begun n
  cases h with
  | diverted job =>
    simp only [note, issue, ticket, divert, taken, List.countP_append, List.countP_singleton, begun_cons,
      Event.begins]
    grind
  | @began _ t he =>
    have hset := countP_set he (t, .running) (fun e => e.1.number = n && e.2 ≠ .ready)
    simp only [note, taken, begun_cons, Event.begins]
    grind
  | @ended _ t he panicked =>
    have hset := countP_set he (t, .finished) (fun e => e.1.number = n && e.2 ≠ .ready)
    simp only [note, taken, begun_cons, Event.begins]
    grind
  | taken hw hq =>
    simp only [note, move, taken, List.countP_append, List.countP_singleton, begun_cons, Event.begins]
    grind
  | _ => exact hn

/-- What was begun is finished or running. -/
theorem step_running (hp : Tallied p) (h : Step p p') (n : Nat) :
    Pool.begun n p'.history = finished n p'.history + p'.workers.countP (·.runs n) +
      p'.errands.countP fun e => e.1.number = n && e.2 = .running := by
  have hn := hp.running n
  cases h with
  | diverted job =>
    simp only [note, issue, ticket, divert, List.countP_append, List.countP_singleton, begun_cons,
      finished_cons, Event.begins, Event.ends]
    grind
  | @began _ t he =>
    have hset := countP_set he (t, .running) (fun e => e.1.number = n && e.2 = .running)
    simp only [note, begun_cons, finished_cons, Event.begins, Event.ends]
    grind
  | @ended _ t he panicked =>
    have hset := countP_set he (t, .finished) (fun e => e.1.number = n && e.2 = .running)
    simp only [note, begun_cons, finished_cons, Event.begins, Event.ends]
    grind
  | @taken _ t _ hw hq =>
    have hset := countP_set hw (.working t) (·.runs n)
    simp only [note, move, begun_cons, finished_cons, Event.begins, Event.ends]
    grind [Worker.runs]
  | done hw panicked =>
    have hset := countP_set hw .checking (·.runs n)
    simp only [note, move, begun_cons, finished_cons, Event.begins, Event.ends]
    grind [Worker.runs]
  | moved hw hf hf' =>
    rw [countP_runs_move hw (Worker.runs_of_isFree hf n) (Worker.runs_of_isFree hf' n)]
    exact hn
  | left hw hf _ =>
    have hmove := countP_runs_move hw (Worker.runs_of_isFree hf n) (rfl : Worker.gone.runs n = false)
    exact hn.trans (congrArg (finished n p.history + · + _) hmove.symm)
  | _ => exact hn

theorem step_busy (hp : Tallied p) (h : Step p p') (n : Nat) :
    p'.workers.countP (·.runs n) ≤ (taken p'.history).countP (·.number = n) := by
  have hn := hp.busy n
  cases h with
  | @taken _ t _ hw hq =>
    have hset := countP_set hw (.working t) (·.runs n)
    simp only [note, move, taken, List.countP_append, List.countP_singleton]
    grind [Worker.runs]
  | done hw panicked =>
    have hset := countP_set hw .checking (·.runs n)
    exact Nat.le_trans (Nat.le_of_add_right_le (Nat.le_of_eq hset)) hn
  | moved hw hf hf' =>
    rw [countP_runs_move hw (Worker.runs_of_isFree hf n) (Worker.runs_of_isFree hf' n)]
    exact hn
  | left hw hf _ =>
    have hmove := countP_runs_move hw (Worker.runs_of_isFree hf n) (rfl : Worker.gone.runs n = false)
    exact Nat.le_trans (Nat.le_of_eq hmove) hn
  | _ => exact hn

/-- **Each step keeps the tallies**. -/
theorem step (hp : Tallied p) (h : Step p p') : Tallied p' :=
  ⟨hp.step_offered h, hp.step_queued h, hp.step_begun h, hp.step_running h, hp.step_busy h⟩

end Tallied

/-- **Every reachable pool keeps them**. -/
theorem Reachable.tallied (h : Reachable p) : Tallied p :=
  h.rec' .start fun _ _ hp hs => hp.step hs

end Isthmus.Pool
