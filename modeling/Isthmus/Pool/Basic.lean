/-!
# Pool/Basic — workers that take jobs from a queue

A pool accepts jobs until it is closed.  Each of its workers goes round a loop: it sees whether the workers
are to stop, waits for a job, and runs it; a job that panics frees its worker like any other.  A worker
that waits on a closed pool leaves when nothing is queued any more.

The call that closes a pool joins the workers one after the other, and detaches those that take too long;
then it tells the workers to stop.  A job that the queue of background work does not accept is run on a
thread of its own.

Each operation is one thing that a thread does while nothing comes between; threads that take turns in
whichever way do the operations in any order.  The history lists what happened, newest first.
-/

namespace Isthmus

/-- A job with its number among all that were offered. -/
structure Ticket (ι : Type) where
  number : Nat
  job : ι
  deriving DecidableEq

/-- How the workers of a pool ended. -/
structure ShutdownReport where
  joined : Nat := 0
  detached : Nat := 0
  deriving DecidableEq, Repr

namespace Pool

/-- Where a worker is. -/
inductive Worker (ι : Type) where
  /-- About to see whether the workers are to stop. -/
  | checking
  /-- Waiting for a job. -/
  | receiving
  | working (t : Ticket ι)
  | gone
  deriving DecidableEq

/-- Where a thread is that was started for one job. -/
inductive Errand where
  | ready
  | running
  | finished
  deriving DecidableEq

/-- The call that closed the pool, while it sees the workers off. -/
structure Closing where
  /-- The worker that is joined next. -/
  next : Nat := 0
  report : ShutdownReport := {}
  deriving DecidableEq

/-- What happens in a pool. -/
inductive Event (ι : Type) where
  | accepted (t : Ticket ι)
  /-- A job was handed back to who offered it. -/
  | refused (t : Ticket ι)
  /-- A thread was started for a job. -/
  | diverted (t : Ticket ι)
  | taken (worker : Nat) (t : Ticket ι)
  | done (worker : Nat) (t : Ticket ι) (panicked : Bool)
  /-- The thread of a job began to run it. -/
  | began (t : Ticket ι)
  | ended (t : Ticket ι) (panicked : Bool)
  | left (worker : Nat)
  | closed
  | stopped
  /-- A call to shut the pool down returned; the first is the one that closed it. -/
  | reported (first : Bool) (report : ShutdownReport)
  deriving DecidableEq

end Pool

/-- A pool for jobs of type `ι`. -/
structure Pool (ι : Type) where
  workers : List (Pool.Worker ι)
  /-- Jobs that were accepted and not taken, oldest first. -/
  waiting : List (Ticket ι) := []
  /-- The pool accepts jobs. -/
  isOpen : Bool := true
  /-- The workers are to stop. -/
  isStopped : Bool := false
  closing : Option Pool.Closing := none
  /-- The threads that were started for one job each. -/
  errands : List (Ticket ι × Pool.Errand) := []
  /-- How many jobs were offered. -/
  offered : Nat := 0
  history : List (Pool.Event ι) := []

namespace Pool

variable {ι : Type}

/-- A pool with the given number of workers, but with one at least. -/
def start (workers : Nat) : Pool ι :=
  { workers := List.replicate (max workers 1) .checking }

/-- How many workers the pool was started with. -/
def size (p : Pool ι) : Nat :=
  p.workers.length

def note (p : Pool ι) (e : Event ι) : Pool ι :=
  { p with history := e :: p.history }

/-! ## Offering jobs -/

/-- Gives a job its number. -/
def ticket (p : Pool ι) (job : ι) : Ticket ι :=
  ⟨p.offered, job⟩

/-- A job is offered. -/
def issue (p : Pool ι) : Pool ι :=
  { p with offered := p.offered + 1 }

/-- Queues a job, if the pool is open. -/
def enqueue? (p : Pool ι) (t : Ticket ι) : Option (Pool ι) :=
  if p.isOpen then some ({ p with waiting := p.waiting ++ [t] }.note (.accepted t)) else none

/-- Offers a job; answers whether it was accepted. -/
def submit (p : Pool ι) (job : ι) : Bool × Pool ι :=
  let t := p.ticket job
  match p.issue.enqueue? t with
  | some p' => (true, p')
  | none => (false, p.issue.note (.refused t))

/-- Starts a thread for a job. -/
def divert (p : Pool ι) (t : Ticket ι) : Pool ι :=
  { p with errands := p.errands ++ [(t, Errand.ready)] }.note (.diverted t)

/-- Sees to it that a job is run: by the pool, if it is the queue of background work and accepts the
job, and by a new thread otherwise. -/
def spawn (p : Pool ι) (installed : Bool) (job : ι) : Pool ι :=
  let t := p.ticket job
  if installed then (p.issue.enqueue? t).getD (p.issue.divert t) else p.issue.divert t

/-! ## Threads of their own -/

/-- A thread begins to run its job. -/
def beginErrand (p : Pool ι) (place : Nat) : Option (Pool ι) :=
  match p.errands[place]? with
  | some (t, .ready) => some ({ p with errands := p.errands.set place (t, .running) }.note (.began t))
  | _ => none

/-- A thread is done with its job. -/
def endErrand (p : Pool ι) (place : Nat) (panicked : Bool) : Option (Pool ι) :=
  match p.errands[place]? with
  | some (t, .running) =>
    some ({ p with errands := p.errands.set place (t, .finished) }.note (.ended t panicked))
  | _ => none

/-! ## Workers -/

def move (p : Pool ι) (worker : Nat) (w : Worker ι) : Pool ι :=
  { p with workers := p.workers.set worker w }

/-- A worker ends. -/
def leave (p : Pool ι) (worker : Nat) : Pool ι :=
  (p.move worker .gone).note (.left worker)

/-- A worker sees whether it is to stop. -/
def check (p : Pool ι) (worker : Nat) : Option (Pool ι) :=
  match p.workers[worker]? with
  | some .checking => some (if p.isStopped then p.leave worker else p.move worker .receiving)
  | _ => none

/-- A worker takes the job that waits longest; where none waits it leaves, if the pool is closed, and goes
on waiting otherwise. -/
def receive (p : Pool ι) (worker : Nat) : Option (Pool ι) :=
  match p.workers[worker]?, p.waiting with
  | some .receiving, t :: rest =>
    some (({ p with waiting := rest }.move worker (.working t)).note (.taken worker t))
  | some .receiving, [] => if p.isOpen then none else some (p.leave worker)
  | _, _ => none

/-- A worker has waited long enough for now. -/
def giveUp (p : Pool ι) (worker : Nat) : Option (Pool ι) :=
  match p.workers[worker]? with
  | some .receiving => some (p.move worker .checking)
  | _ => none

/-- A worker is done with its job. -/
def finish (p : Pool ι) (worker : Nat) (panicked : Bool) : Option (Pool ι) :=
  match p.workers[worker]? with
  | some (.working t) => some ((p.move worker .checking).note (.done worker t panicked))
  | _ => none

/-! ## Shutting down -/

/-- Closes the pool.  A call that finds it closed returns at once. -/
def shutDown (p : Pool ι) : Option ShutdownReport × Pool ι :=
  if p.isOpen then (none, { p with isOpen := false, closing := some {} }.note .closed)
  else (some {}, p.note (.reported false {}))

/-- The call that closed the pool sees that the next worker is gone. -/
def join (p : Pool ι) : Option (Pool ι) := do
  let c ← p.closing
  match p.workers[c.next]? with
  | some .gone =>
    return { p with closing := some ⟨c.next + 1, { c.report with joined := c.report.joined + 1 }⟩ }
  | _ => none

/-- It has waited long enough for the next worker. -/
def detach (p : Pool ι) : Option (Pool ι) := do
  let c ← p.closing
  if c.next < p.size then
    return { p with closing := some ⟨c.next + 1, { c.report with detached := c.report.detached + 1 }⟩ }
  else none

/-- When it has seen to all workers, it tells them to stop. -/
def halt (p : Pool ι) : Option (Pool ι) := do
  let c ← p.closing
  if c.next < p.size || p.isStopped then none
  else return { p with isStopped := true }.note .stopped

/-- Then it returns. -/
def conclude (p : Pool ι) : Option (ShutdownReport × Pool ι) := do
  let c ← p.closing
  if p.isStopped then return (c.report, { p with closing := none }.note (.reported true c.report))
  else none

/-! ## All that can happen -/

/-- One thing that a thread does. -/
inductive Act (ι : Type) where
  | submit (job : ι)
  | spawn (installed : Bool) (job : ι)
  | beginErrand (place : Nat)
  | endErrand (place : Nat) (panicked : Bool)
  | check (worker : Nat)
  | receive (worker : Nat)
  | giveUp (worker : Nat)
  | finish (worker : Nat) (panicked : Bool)
  | shutDown
  | join
  | detach
  | halt
  | conclude

/-- Does one thing, if a thread is where it can do it. -/
def act (p : Pool ι) : Act ι → Option (Pool ι)
  | .submit job => some (p.submit job).2
  | .spawn installed job => some (p.spawn installed job)
  | .beginErrand place => p.beginErrand place
  | .endErrand place panicked => p.endErrand place panicked
  | .check worker => p.check worker
  | .receive worker => p.receive worker
  | .giveUp worker => p.giveUp worker
  | .finish worker panicked => p.finish worker panicked
  | .shutDown => some p.shutDown.2
  | .join => p.join
  | .detach => p.detach
  | .halt => p.halt
  | .conclude => p.conclude.map (·.2)

/-- Does one thing after the other. -/
def acts (p : Pool ι) : List (Act ι) → Option (Pool ι)
  | [] => some p
  | a :: rest => (p.act a).bind (·.acts rest)

end Pool

end Isthmus
