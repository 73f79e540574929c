import Isthmus.Proofs.Pool.Tallies

/-!
# Proofs/Pool/Lossless — a pool loses and duplicates nothing

The tallies say that no job is run twice.  That none is lost rests on the order in which a pool comes to
its end (`Guarded`): it is closed before a worker leaves, a worker that was not told to stop leaves an
empty queue, and the workers are told to stop when all of them have been joined or detached.  So where none
was detached, all were gone before, and the first to go found nothing left to do.
-/

namespace Isthmus.Pool

variable {ι : Type} {p p' : Pool ι}

/-! ## The end of a pool -/

/-- What the call that closed the pool knows by now. -/
structure Closing.Attends (c : Closing) (p : Pool ι) : Prop where
  closed : ¬ p.isOpen
  counted : c.report.joined + c.report.detached = c.next
  bound : c.next ≤ p.size
  stopped : p.isStopped → c.next = p.size
  /-- A worker that was joined left an empty queue. -/
  drained : 0 < c.report.joined → p.waiting = []
  gone : c.report.detached = 0 → ∀ i < c.next, p.workers[i]? = some .gone

/-- The order in which a pool comes to its end. -/
structure Guarded (p : Pool ι) : Prop where
  manned : 0 < p.size
  closed : p.isOpen = false ↔ .closed ∈ p.history
  stopped : p.isStopped → ¬ p.isOpen
  /-- A worker leaves a closed pool, and leaves an empty queue unless it was told to stop. -/
  left : .gone ∈ p.workers → ¬ p.isOpen ∧ (p.waiting = [] ∨ p.isStopped)
  attended : ∀ c, p.closing = some c → c.Attends p

namespace Worker

/-- A worker that is free is there. -/
theorem ne_gone_of_isFree {w : Worker ι} (h : w.isFree) : w ≠ .gone := by
  rintro rfl
  cases h

/-- A worker that is gone stays so when another goes on. -/
theorem gone_of_set {workers : List (Worker ι)} {i j : Nat} {w : Worker ι} (h : workers[i]? = some w)
    (hw : w ≠ .gone) (hj : workers[j]? = some .gone) (w' : Worker ι) :
    (workers.set i w')[j]? = some .gone := by
  have hne : i ≠ j := by
    rintro rfl
    exact hw (Option.some.inj (h.symm.trans hj))
  rwa [List.getElem?_set_ne hne]

/-- Who changes into something else did not leave. -/
theorem gone_mem_of_set {workers : List (Worker ι)} {i : Nat} {w' : Worker ι}
    (h : .gone ∈ workers.set i w') (hw : w' ≠ .gone) : .gone ∈ workers :=
  (List.mem_or_eq_of_mem_set h).resolve_right hw.symm

end Worker

/-- A pool keeps its size. -/
@[simp]
theorem size_move (p : Pool ι) (worker : Nat) (w : Worker ι) : (p.move worker w).size = p.size :=
  List.length_set

/-- A worker goes on, and the call that closed the pool need not know. -/
theorem Closing.Attends.move {c : Closing} (h : c.Attends p) {i : Nat} {w : Worker ι}
    (hw : p.workers[i]? = some w) (hg : w ≠ .gone) (w' : Worker ι) : c.Attends (p.move i w') where
  closed := h.closed
  counted := h.counted
  bound := by
    rw [size_move]
    exact h.bound
  stopped hs := by
    rw [size_move]
    exact h.stopped hs
  drained := h.drained
  gone hd j hj := Worker.gone_of_set hw hg (h.gone hd j hj) w'

namespace Guarded

/-- A pool that starts is guarded. -/
theorem start (workers : Nat) : Guarded (start workers : Pool ι) where
  manned := by
    rw [size, Pool.start, List.length_replicate]
    exact Nat.lt_of_lt_of_le Nat.one_pos (Nat.le_max_right workers 1)
  closed := iff_of_false Bool.noConfusion List.not_mem_nil
  stopped h := absurd h Bool.false_ne_true
  left h := by cases List.eq_of_mem_replicate h
  attended _ h := by cases h

/-- It keeps a worker. -/
theorem step_manned (hp : Guarded p) (h : Step p p') : 0 < p'.size := by
  have hm := hp.manned
  cases h with
  | moved | left | taken | done => exact Nat.lt_of_lt_of_eq hm (size_move ..).symm
  | _ => exact hm

/-- It is closed when it was told to close. -/
theorem step_closed (hp : Guarded p) (h : Step p p') : p'.isOpen = false ↔ .closed ∈ p'.history := by
  have hc := hp.closed
  cases h with
  | moved | joined | detached => exact hc
  | closed => exact iff_of_true rfl List.mem_cons_self
  | _ => exact hc.trans (by simp only [note, leave, divert, List.mem_cons, reduceCtorEq, false_or] <;> rfl)

/-- It stops only when it is closed. -/
theorem step_stopped (hp : Guarded p) (h : Step p p') : p'.isStopped → ¬ p'.isOpen := by
  cases h with
  | closed => exact fun _ => Bool.false_ne_true
  | halted hc => exact fun _ => (hp.attended _ hc).closed
  | _ => exact hp.stopped

/-- A worker leaves only a pool that is closed, once there is nothing to wait for. -/
theorem step_left (hp : Guarded p) (h : Step p p') :
    .gone ∈ p'.workers → ¬ p'.isOpen ∧ (p'.waiting = [] ∨ p'.isStopped) := by
  intro hg
  cases h with
  | accepted _ ho => exact absurd ho (hp.left hg).1
  | moved hw hf hf' => exact hp.left (Worker.gone_mem_of_set hg (Worker.ne_gone_of_isFree hf'))
  | left hw hf hl =>
    rcases hl with hs | ⟨ho, hq⟩
    · exact ⟨hp.stopped hs, .inr hs⟩
    · exact ⟨ho, .inl hq⟩
  | taken hw hq =>
    obtain ⟨ho, hl⟩ := hp.left (Worker.gone_mem_of_set hg nofun)
    exact ⟨ho, .inr (hl.resolve_left (by rw [hq]; exact List.cons_ne_nil _ _))⟩
  | done => exact hp.left (Worker.gone_mem_of_set hg nofun)
  | closed ho => exact absurd ho (hp.left hg).1
  | halted hc => exact ⟨(hp.left hg).1, .inr rfl⟩
  | _ => exact hp.left hg

/-- Who closes a pool attends to it at each step. -/
theorem step_attended (hp : Guarded p) (h : Step p p') (c : Closing) (hc : p'.closing = some c) :
    c.Attends p' := by
  cases h with
  | accepted _ ho => exact absurd ho (hp.attended c hc).closed
  | moved hw hf _ => exact (hp.attended c hc).move hw (Worker.ne_gone_of_isFree hf) _
  | left hw hf _ =>
    exact { (hp.attended c hc).move hw (Worker.ne_gone_of_isFree hf) .gone with }
  | taken hw hq =>
    refine { (hp.attended c hc).move hw nofun (.working _) with drained := fun hj => ?_ }
    cases hq.symm.trans ((hp.attended c hc).drained hj)
  | done hw _ => exact { (hp.attended c hc).move hw nofun .checking with }
  | closed ho =>
    cases hc
    exact {
      closed := Bool.false_ne_true
      counted := rfl
      bound := Nat.zero_le _
      stopped := fun hs => absurd ho (hp.stopped hs)
      drained := fun hj => absurd hj (Nat.lt_irrefl 0)
      gone := fun _ i hi => absurd hi (Nat.not_lt_zero i) }
  | @joined c₀ h₀ hw =>
    cases hc
    have hc := hp.attended c₀ h₀
    have hlt : c₀.next < p.size := (List.getElem?_eq_some_iff.1 hw).1
    have hs : ¬ p.isStopped := fun hs => Nat.ne_of_lt hlt (hc.stopped hs)
    exact {
      closed := hc.closed
      counted := by rw [← hc.counted, Nat.add_right_comm]
      bound := hlt
      stopped := fun hs' => absurd hs' hs
      drained := fun _ => (hp.left (List.mem_of_getElem? hw)).2.resolve_right hs
      gone := fun hd i hi => (Nat.lt_succ_iff_lt_or_eq.1 hi).elim (hc.gone hd i) fun he => he ▸ hw }
  | @detached c₀ h₀ hlt =>
    cases hc
    have hc := hp.attended c₀ h₀
    exact {
      closed := hc.closed
      counted := by rw [← hc.counted, Nat.add_assoc]
      bound := hlt
      stopped := fun hs => absurd (hc.stopped hs) (Nat.ne_of_lt hlt)
      drained := hc.drained
      gone := fun hd => absurd hd (Nat.succ_ne_zero _) }
  | halted h₀ hn _ =>
    cases h₀.symm.trans hc
    exact { hp.attended c hc with stopped := fun _ => Nat.le_antisymm (hp.attended c hc).bound hn }
  | concluded => cases hc
  | _ => exact { hp.attended c hc with }

/-- **Each step keeps the guard**. -/
theorem step (hp : Guarded p) (h : Step p p') : Guarded p' :=
  ⟨hp.step_manned h, hp.step_closed h, hp.step_stopped h, hp.step_left h, hp.step_attended h⟩

end Guarded

/-- **Every reachable pool is guarded**. -/
theorem Reachable.guarded (h : Reachable p) : Guarded p :=
  h.rec' .start fun _ _ hp hs => hp.step hs

/-! ## Jobs that were run -/

/-- Counting among entries of which there is only one. -/
theorem countP_and_of_unique {α : Type} {l : List α} {a : α} {f : α → Bool} (h : l.countP f = 1)
    (ha : a ∈ l) (hf : f a) (g : α → Bool) :
    (l.countP fun b => f b && g b) = if g a then 1 else 0 := by
  have hmem : a ∈ l.filter f := List.mem_filter.2 ⟨ha, hf⟩
  obtain ⟨b, hb⟩ := List.length_eq_one_iff.1 (List.countP_eq_length_filter.symm.trans h)
  rw [hb, List.mem_singleton] at hmem
  have hcount : (l.countP fun b => f b && g b) = (l.filter f).countP g := by
    rw [List.countP_filter]
    exact congrArg (l.countP ·) (funext fun b => Bool.and_comm (f b) (g b))
  rw [hcount, hb, ← hmem, List.countP_singleton]

namespace Tallied

variable {t : Ticket ι}

/-- No job is taken more often than it was accepted. -/
theorem taken_le (hp : Tallied p) (n : Nat) :
    (taken p.history).countP (·.number = n) ≤ (accepted p.history).countP (·.number = n) := by
  rw [← hp.queued, List.countP_append]
  exact Nat.le_add_right ..

/-- No more errands do something than there are errands. -/
theorem errands_le (p : Pool ι) (n : Nat) (f : Errand → Bool) :
    (p.errands.countP fun e => e.1.number = n && f e.2) ≤ p.errands.countP (·.1.number = n) :=
  List.countP_mono_left fun _ _ he => (Bool.and_eq_true_iff.1 he).1

/-- No job is begun more often than it was accepted or is being run. -/
theorem begun_le (hp : Tallied p) (n : Nat) : Pool.begun n p.history ≤
    (accepted p.history).countP (·.number = n) + p.errands.countP (·.1.number = n) := by
  rw [hp.begun]
  exact Nat.add_le_add (hp.taken_le n) (errands_le p n (· ≠ .ready))

/-- **Nothing is done twice.** -/
theorem once (hp : Tallied p) (n : Nat) : (taken p.history).countP (·.number = n) ≤ 1 ∧
    Pool.begun n p.history ≤ 1 ∧ finished n p.history ≤ Pool.begun n p.history := by
  have ho : (accepted p.history).countP (·.number = n) + p.errands.countP (·.1.number = n) ≤ 1 := by
    have hn := hp.offered n
    split at hn <;> omega
  refine ⟨?_, Nat.le_trans (hp.begun_le n) ho, ?_⟩
  · exact Nat.le_trans (hp.taken_le n) (Nat.le_trans (Nat.le_add_right ..) ho)
  · rw [hp.running, Nat.add_assoc]
    exact Nat.le_add_right ..

/-- A job that was handed back is never run. -/
theorem begun_of_refused (hp : Tallied p) (h : .refused t ∈ p.history) :
    Pool.begun t.number p.history = 0 := by
  have hr : 0 < refusals t.number p.history := List.countP_pos_iff.2 ⟨_, h, decide_eq_true rfl⟩
  have hn := hp.offered t.number
  have hb := hp.begun_le t.number
  split at hn <;> omega

/-- Where nothing is left to do, each job that was accepted was run once. -/
theorem finished_of_idle (hp : Tallied p) (hq : p.waiting = []) (hw : ∀ w ∈ p.workers, w = .gone)
    (h : .accepted t ∈ p.history) :
    Pool.begun t.number p.history = 1 ∧ finished t.number p.history = 1 := by
  have ha : 0 < (accepted p.history).countP (·.number = t.number) :=
    List.countP_pos_iff.2 ⟨t, mem_accepted.2 h, decide_eq_true rfl⟩
  have htaken : taken p.history = accepted p.history := by
    rw [← hp.queued, hq, List.append_nil]
  have hbusy : p.workers.countP (·.runs t.number) = 0 := List.countP_eq_zero.2 fun w hm => by
    rw [hw w hm]
    exact Bool.false_ne_true
  have hn := hp.offered t.number
  have hb := hp.begun t.number
  have hr := hp.running t.number
  have hready := errands_le p t.number (· ≠ .ready)
  have hrunning := errands_le p t.number (· = .running)
  rw [htaken] at hb
  split at hn <;> omega

/-- A job with a thread of its own is not the pool's, and its thread tells how often it was run. -/
theorem errand (hp : Tallied p) {place : Nat} {e : Errand} (h : p.errands[place]? = some (t, e)) :
    .accepted t ∉ p.history ∧ Pool.begun t.number p.history = (if e = .ready then 0 else 1) ∧
      finished t.number p.history = if e = .finished then 1 else 0 := by
  have hmem : (t, e) ∈ p.errands := List.mem_of_getElem? h
  have hpos : 0 < p.errands.countP (·.1.number = t.number) :=
    List.countP_pos_iff.2 ⟨_, hmem, decide_eq_true rfl⟩
  have hn := hp.offered t.number
  have hone : p.errands.countP (·.1.number = t.number) = 1 := by
    split at hn <;> omega
  have hnone : (accepted p.history).countP (·.number = t.number) = 0 := by
    split at hn <;> omega
  have hb := hp.begun t.number
  have hr := hp.running t.number
  have ht := hp.taken_le t.number
  have hbusy := hp.busy t.number
  rw [countP_and_of_unique hone hmem (decide_eq_true rfl) (·.2 ≠ .ready)] at hb
  rw [countP_and_of_unique hone hmem (decide_eq_true rfl) (·.2 = .running)] at hr
  refine ⟨fun ha => ?_, ?_, ?_⟩
  · exact List.countP_eq_zero.1 hnone t (mem_accepted.2 ha) (decide_eq_true rfl)
  · cases e <;> grind
  · cases e <;> grind

end Tallied

/-! ## What a thread can do by itself -/

namespace Act

/-- The act is one of the worker's own. -/
def isOfWorker (worker : Nat) : Act ι → Bool
  | check w | receive w | giveUp w | finish w _ => w = worker
  | _ => false

/-- The act is one of the thread that was started for a job. -/
def isOfErrand (place : Nat) : Act ι → Bool
  | beginErrand k | endErrand k _ => k = place
  | _ => false

end Act

/-- Acts of one kind alone lead from the one pool to the other. -/
def RunBy (own : Act ι → Bool) (p p' : Pool ι) : Prop :=
  ∃ as, (∀ a ∈ as, own a) ∧ p.acts as = some p'

/-- No step takes back what happened. -/
theorem Step.history_suffix (h : Step p p') : p.history <:+ p'.history := by
  cases h with
  | moved | joined | detached => exact List.suffix_rfl
  | _ => exact List.suffix_cons _ _

namespace RunBy

variable {own : Act ι → Bool} {p'' : Pool ι}

/-- A thread may do nothing. -/
theorem refl (p : Pool ι) : RunBy own p p :=
  ⟨[], fun _ ha => absurd ha List.not_mem_nil, rfl⟩

/-- It may do what is its own. -/
theorem act {a : Act ι} (ha : own a) (h : p.act a = some p') : RunBy own p p' := by
  refine ⟨[a], fun b hb => List.mem_singleton.1 hb ▸ ha, ?_⟩
  rw [acts, h]
  rfl

/-- It may go on. -/
theorem trans (h : RunBy own p p') (h' : RunBy own p' p'') : RunBy own p p'' := by
  obtain ⟨as, ho, ha⟩ := h
  obtain ⟨as', ho', ha'⟩ := h'
  refine ⟨as ++ as', fun a hm => (List.mem_append.1 hm).elim (ho a) (ho' a), ?_⟩
  rw [acts_append, ha]
  exact ha'

/-- What a thread does by itself leads to a reachable pool. -/
theorem reachable (h : RunBy own p p') (hp : Reachable p) : Reachable p' := by
  obtain ⟨as, -, ha⟩ := h
  exact hp.acts ha

/-- It takes nothing back. -/
theorem history_suffix (h : RunBy own p p') : p.history <:+ p'.history := by
  obtain ⟨as, -, ha⟩ := h
  induction as generalizing p with
  | nil =>
    cases ha
    exact List.suffix_rfl
  | cons a as ih =>
    obtain ⟨p₁, h₁, ha⟩ := Option.bind_eq_some_iff.1 ha
    exact (step_of_act h₁).history_suffix.trans (ih ha)

end RunBy

section

variable {i : Nat} {t : Ticket ι}

/-- An errand that is ready can begin. -/
theorem beginErrand_of_ready (h : p.errands[i]? = some (t, .ready)) : p.beginErrand i =
    some ({ p with errands := p.errands.set i (t, .running) }.note (.began t)) := by
  rw [beginErrand, h]

/-- One that runs can end. -/
theorem endErrand_of_running (h : p.errands[i]? = some (t, .running)) (panicked : Bool) :
    p.endErrand i panicked =
      some ({ p with errands := p.errands.set i (t, .finished) }.note (.ended t panicked)) := by
  rw [endErrand, h]

/-- A worker that checks goes on to receive while the pool is not stopped. -/
theorem check_of_checking (h : p.workers[i]? = some .checking) (hs : ¬ p.isStopped) :
    p.check i = some (p.move i .receiving) := by
  rw [check, h]
  exact congrArg some (if_neg hs)

/-- A worker that receives takes the first job that waits. -/
theorem receive_of_cons {rest : List (Ticket ι)} (h : p.workers[i]? = some .receiving)
    (hq : p.waiting = t :: rest) : p.receive i =
      some (({ p with waiting := rest }.move i (.working t)).note (.taken i t)) := by
  rw [receive, h, hq]

/-- A worker at work can finish. -/
theorem finish_of_working (h : p.workers[i]? = some (.working t)) (panicked : Bool) :
    p.finish i panicked = some ((p.move i .checking).note (.done i t panicked)) := by
  rw [finish, h]

/-- The thread of a job runs it to its end. -/
theorem exists_runBy_errand {e : Errand} (h : p.errands[i]? = some (t, e)) :
    ∃ p', RunBy (·.isOfErrand i) p p' ∧ p'.errands[i]? = some (t, .finished) := by
  have hi : i < p.errands.length := (List.getElem?_eq_some_iff.1 h).1
  have hown (a : Act ι) (ha : a = .beginErrand i ∨ a = .endErrand i false) : a.isOfErrand i := by
    rcases ha with rfl | rfl <;> exact decide_eq_true rfl
  cases e with
  | finished => exact ⟨p, .refl p, h⟩
  | running =>
    exact ⟨_, .act (hown _ (.inr rfl)) (endErrand_of_running h false), List.getElem?_set_self hi⟩
  | ready =>
    have hend := endErrand_of_running (p := { p with errands := p.errands.set i (t, .running) }.note
      (.began t)) (List.getElem?_set_self hi) false
    refine ⟨_, (RunBy.act (hown _ (.inl rfl)) (beginErrand_of_ready h)).trans
      (.act (hown _ (.inr rfl)) hend), List.getElem?_set_self ?_⟩
    exact Nat.lt_of_lt_of_eq hi List.length_set.symm

/-! ## Workers alone -/

/-- A worker that is not told to stop gets to where it waits for a job, whatever becomes of the job it
runs. -/
theorem exists_runBy_receiving (hp : Guarded p) (hs : ¬ p.isStopped) (hq : p.waiting ≠ [])
    (hi : i < p.size) (panicked : Bool) : ∃ p', RunBy (·.isOfWorker i) p p' ∧
      p'.workers[i]? = some .receiving ∧ p'.waiting = p.waiting ∧ ¬ p'.isStopped ∧ p'.size = p.size := by
  have hown (a : Act ι) (ha : a = .check i ∨ a = .finish i panicked) : a.isOfWorker i := by
    rcases ha with rfl | rfl <;> exact decide_eq_true rfl
  have hw : p.workers[i]? = some p.workers[i] := List.getElem?_eq_getElem hi
  cases hc : p.workers[i] with
  | checking =>
    rw [hc] at hw
    exact ⟨_, .act (hown _ (.inl rfl)) (check_of_checking hw hs), List.getElem?_set_self hi, rfl, hs,
      size_move ..⟩
  | receiving => exact ⟨p, .refl p, hw.trans (congrArg some hc), rfl, hs, rfl⟩
  | working t =>
    rw [hc] at hw
    have hi' : i < (p.move i .checking).workers.length := Nat.lt_of_lt_of_eq hi (size_move ..).symm
    have hcheck := check_of_checking (p := (p.move i .checking).note (.done i t panicked))
      (List.getElem?_set_self hi) hs
    exact ⟨_, (RunBy.act (hown _ (.inr rfl)) (finish_of_working hw panicked)).trans
      (.act (hown _ (.inl rfl)) hcheck), List.getElem?_set_self hi', rfl, hs,
      (size_move ..).trans (size_move ..)⟩
  | gone =>
    have hl := (hp.left (hc ▸ List.getElem_mem hi)).2
    exact absurd (hl.resolve_right hs) hq

/-- It runs the job that waits longest. -/
theorem exists_runBy_next (hp : Guarded p) (hs : ¬ p.isStopped) {rest : List (Ticket ι)}
    (hq : p.waiting = t :: rest) (hi : i < p.size) (panicked : Bool) :
    ∃ p', RunBy (·.isOfWorker i) p p' ∧ p'.waiting = rest ∧ ¬ p'.isStopped ∧ p'.size = p.size ∧
      .done i t panicked ∈ p'.history := by
  obtain ⟨q, hr, hw, hq', hs', hsize⟩ :=
    exists_runBy_receiving hp hs (hq ▸ List.cons_ne_nil t rest) hi panicked
  have hi' : i < q.workers.length := Nat.lt_of_lt_of_eq hi hsize.symm
  have hfinish := finish_of_working (p := ({ q with waiting := rest }.move i (.working t)).note
    (.taken i t)) (List.getElem?_set_self hi') panicked
  have htake : RunBy (·.isOfWorker i) q _ :=
    .act (a := .receive i) (decide_eq_true rfl) (receive_of_cons hw (hq'.trans hq))
  have hdone : RunBy (·.isOfWorker i) _ _ :=
    .act (a := .finish i panicked) (decide_eq_true rfl) hfinish
  refine ⟨_, hr.trans (htake.trans hdone), rfl, hs', ?_, List.mem_cons_self⟩
  exact (size_move ..).trans ((size_move ..).trans hsize)

/-- **Each worker alone runs all jobs that wait**, whichever of them panic. -/
theorem Reachable.exists_runBy_worker (hp : Reachable p) (hs : ¬ p.isStopped) (hi : i < p.size)
    (panics : Ticket ι → Bool) : ∃ p', RunBy (·.isOfWorker i) p p' ∧ p'.waiting = [] ∧
      ∀ t ∈ p.waiting, .done i t (panics t) ∈ p'.history := by
  induction hq : p.waiting generalizing p with
  | nil => exact ⟨p, .refl p, hq, fun t ht => absurd ht List.not_mem_nil⟩
  | cons t rest ih =>
    obtain ⟨q, hr, hq', hs', hsize, hdone⟩ := exists_runBy_next hp.guarded hs hq hi (panics t)
    obtain ⟨p', hr', hq'', hall⟩ := ih (hr.reachable hp) hs' (Nat.lt_of_lt_of_eq hi hsize.symm) hq'
    refine ⟨p', hr.trans hr', hq'', List.forall_mem_cons.2 ⟨?_, hall⟩⟩
    exact hr'.history_suffix.mem hdone

end

/-! ## The law -/

/-- What becomes of the jobs that are offered to a pool. -/
structure Lossless (p : Pool ι) : Prop where
  /-- Each job is taken at most once, begun at most once and done at most once. -/
  once : ∀ n, (taken p.history).countP (·.number = n) ≤ 1 ∧ begun n p.history ≤ 1 ∧
    finished n p.history ≤ begun n p.history
  /-- Jobs are taken in the order of acceptance, and those that were not taken wait in it. -/
  inOrder : taken p.history ++ p.waiting = accepted p.history
  /-- A job that panics stops no later one: unless the workers were told to stop, each of them alone can
  run all jobs that wait, whichever panic. -/
  goesOn : ¬ p.isStopped → ∀ worker < p.size, ∀ panics : Ticket ι → Bool, ∃ p',
    RunBy (·.isOfWorker worker) p p' ∧ p'.waiting = [] ∧
      ∀ t ∈ p.waiting, .done worker t (panics t) ∈ p'.history
  /-- Jobs are accepted until the pool is closed. -/
  opened : .closed ∉ p.history → ∀ job, (p.submit job).1 = true ∧
    accepted (p.submit job).2.history = accepted p.history ++ [p.ticket job]
  /-- From then on each job is handed back. -/
  closed : .closed ∈ p.history → ∀ job,
    p.submit job = (false, p.issue.note (.refused (p.ticket job)))
  /-- A job that was handed back is not run. -/
  refused : ∀ t, .refused t ∈ p.history → begun t.number p.history = 0
  /-- From then on a thread is started for each job that is spawned. -/
  spawned : .closed ∈ p.history → ∀ installed job,
    (p.spawn installed job).errands = p.errands ++ [(p.ticket job, .ready)]
  /-- Such a job is not the pool's; it was begun unless its thread is ready, it is done when its thread is
  finished, and its thread alone can get so far that it was run once. -/
  errand : ∀ place t e, p.errands[place]? = some (t, e) → .accepted t ∉ p.history ∧
    begun t.number p.history = (if e = .ready then 0 else 1) ∧
    finished t.number p.history = (if e = .finished then 1 else 0) ∧
    ∃ p', RunBy (·.isOfErrand place) p p' ∧ begun t.number p'.history = 1 ∧
      finished t.number p'.history = 1
  /-- A call that finds the pool closed reports nothing. -/
  late : .closed ∈ p.history → p.shutDown.1 = some {}
  /-- The call that closed the pool accounts for each worker, and if it detached none, each job that was
  accepted has been run once when it returns. -/
  concluded : ∀ r p', p.conclude = some (r, p') → r.joined + r.detached = p.size ∧
    (r.detached = 0 → ∀ t, .accepted t ∈ p'.history →
      begun t.number p'.history = 1 ∧ finished t.number p'.history = 1)

namespace Guarded

/-- A closed pool refuses jobs. -/
theorem enqueue?_of_closed (hp : Guarded p) (h : .closed ∈ p.history) (t : Ticket ι) :
    p.issue.enqueue? t = none :=
  if_neg (ne_true_of_eq_false (hp.closed.2 h))

/-- What the pool is like when the call that closed it returns. -/
theorem of_conclude (hp : Guarded p) {r : ShutdownReport} (h : p.conclude = some (r, p')) :
    r.joined + r.detached = p.size ∧ p' = { p with closing := none }.note (.reported true r) ∧
      (r.detached = 0 → p.waiting = [] ∧ ∀ w ∈ p.workers, w = .gone) := by
  obtain ⟨c, hc, h⟩ := Option.bind_eq_some_iff.1 h
  have ha := hp.attended c hc
  split at h
  · next hs =>
    cases h
    have hall := ha.stopped hs
    refine ⟨ha.counted.trans hall, rfl, fun hd => ⟨ha.drained ?_, fun w hw => ?_⟩⟩
    · have hcount := ha.counted
      have hm := hp.manned
      omega
    · obtain ⟨i, hi, rfl⟩ := List.getElem_of_mem hw
      exact List.getElem_eq_iff hi |>.2 (ha.gone hd i (hall ▸ hi))
  · cases h

end Guarded

/-- **A pool loses and duplicates nothing**, whatever its threads do in whichever order. -/
theorem Reachable.lossless (h : Reachable p) : Lossless p where
  once := h.tallied.once
  inOrder := h.tallied.queued
  goesOn hs _ hi := h.exists_runBy_worker hs hi
  opened hc job := by
    have ho : p.isOpen = true := eq_true_of_ne_false fun ho => hc (h.guarded.closed.1 ho)
    have he : p.issue.enqueue? (p.ticket job) = some _ := if_pos ho
    rw [submit, he]
    exact ⟨rfl, rfl⟩
  closed hc job := by
    rw [submit, h.guarded.enqueue?_of_closed hc]
  refused _ := h.tallied.begun_of_refused
  spawned hc installed job := by
    rw [spawn, h.guarded.enqueue?_of_closed hc]
    cases installed <;> rfl
  errand place t e he := by
    obtain ⟨ha, hb, ho⟩ := h.tallied.errand he
    obtain ⟨p', hr, he'⟩ := exists_runBy_errand he
    obtain ⟨-, hb', ho'⟩ := (hr.reachable h).tallied.errand he'
    exact ⟨ha, hb, ho, p', hr, hb', ho'⟩
  late hc := by
    rw [shutDown, h.guarded.closed.2 hc]
    rfl
  concluded r p' hr := by
    obtain ⟨hsum, rfl, hall⟩ := h.guarded.of_conclude hr
    refine ⟨hsum, fun hd t ht => ?_⟩
    obtain ⟨hq, hw⟩ := hall hd
    rw [← mem_accepted] at ht
    exact h.tallied.finished_of_idle hq hw (mem_accepted.1 ht)

/-- A worker runs two jobs, of which the first panics, after the pool was closed; then a job is handed
back, and another gets a thread of its own. -/
theorem lossless_of_closed : Lossless ({
    workers := [.gone], isOpen := false, isStopped := true, errands := [(⟨3, 10⟩, .finished)], offered := 4
    history := [.reported false {}, .ended ⟨3, 10⟩ false, .began ⟨3, 10⟩, .diverted ⟨3, 10⟩,
      .refused ⟨2, 9⟩, .reported true ⟨1, 0⟩, .stopped, .left 0, .done 0 ⟨1, 8⟩ false, .taken 0 ⟨1, 8⟩,
      .done 0 ⟨0, 7⟩ true, .closed, .accepted ⟨1, 8⟩, .taken 0 ⟨0, 7⟩, .accepted ⟨0, 7⟩] } : Pool Nat) :=
  Reachable.lossless ⟨1, [.submit 7, .check 0, .receive 0, .submit 8, .shutDown, .finish 0 true, .check 0,
    .receive 0, .finish 0 false, .check 0, .receive 0, .join, .halt, .conclude, .submit 9,
    .spawn true 10, .beginErrand 0, .endErrand 0 false, .shutDown], rfl⟩

end Isthmus.Pool
