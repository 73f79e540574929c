import Isthmus.Document.Basic
import Isthmus.Pool.Basic

/-!
# Pool/Script — a pool put to work

A script submits jobs to a pool.  Jobs run as soon as a worker is free, and are done at once, except
that a gate keeps its worker until it is released.
-/

namespace Isthmus

/-- A job of a script. -/
inductive PoolJob where
  /-- Adds a number to the sum. -/
  | add (n : Int)
  | fail
  /-- Ends when it is released. -/
  | gate (name : String)
  | nothing
  deriving DecidableEq, Repr

/-- One thing to do with a pool. -/
inductive PoolAction where
  | submit (job : PoolJob)
  | release (gate : String)
  /-- Asks for the name of the worker that does a job. -/
  | workerName
  | sum
  /-- Makes the pool the one that background work goes to, twice. -/
  | install
  | state
  | shutDown

/-- A pool at work. -/
structure PoolRun where
  pool : Pool PoolJob
  sum : Int := 0
  /-- The gates that were released. -/
  released : List String := []

namespace PoolRun

/-- The job keeps its worker. -/
def isHeld (s : PoolRun) : PoolJob → Bool
  | .gate name => !s.released.contains name
  | _ => false

/-- What a job does. -/
def perform (s : PoolRun) : PoolJob → PoolRun
  | .add n => { s with sum := s.sum + n }
  | _ => s

/-- The pool after what a thread tries to do. -/
def trying (s : PoolRun) (next : Option (Pool PoolJob)) : PoolRun :=
  { s with pool := next.getD s.pool }

/-- A worker goes on. -/
def turn (s : PoolRun) (worker : Nat) : PoolRun :=
  match s.pool.workers[worker]? with
  | some .checking => s.trying (s.pool.check worker)
  | some .receiving => s.trying (s.pool.receive worker)
  | some (.working t) =>
    if s.isHeld t.job then s
    else (s.perform t.job).trying (s.pool.finish worker (t.job = .fail))
  | _ => s

/-- All workers go on, `count` times. -/
def rounds : Nat → PoolRun → PoolRun
  | 0, s => s
  | count + 1, s => rounds count ((List.range s.pool.size).foldl turn s)

/-- Workers go on until they wait for something.  A job takes a worker three turns. -/
def settle (s : PoolRun) : PoolRun :=
  rounds (3 * (s.pool.waiting.length + 2)) s

/-- Releases a gate. -/
def release (s : PoolRun) (gate : String) : PoolRun :=
  { s with released := gate :: s.released }.settle

/-- Releases the earlier gate under the name of a new one, which then is not released. -/
def prepare (s : PoolRun) : PoolJob → PoolRun
  | .gate name => { s.release name with released := s.released.filter (· ≠ name) }
  | _ => s

/-- Sees `count` workers off: those that are not gone by now take too long. -/
def seeOff : Nat → PoolRun → PoolRun
  | 0, s => s
  | count + 1, s => seeOff count (s.trying (s.pool.join <|> s.pool.detach))

/-- Shuts the pool down; free workers leave before the first is joined. -/
def shutDown (s : PoolRun) : ShutdownReport × PoolRun :=
  match s.pool.shutDown with
  | (some report, pool) => (report, { s with pool })
  | (none, pool) =>
    let s := seeOff pool.size { s with pool }.settle
    let s := s.trying s.pool.halt
    match s.pool.conclude with
    | some (report, pool) => (report, { s with pool }.settle)
    | none => ({}, s)

/-- Does an action of a script, and answers it. -/
def act (s : PoolRun) : PoolAction → Document × PoolRun
  | .submit job =>
    let s := s.prepare job
    let (accepted, pool) := s.pool.submit job
    (.bool accepted, { s with pool }.settle)
  | .release name => (.null, s.release name)
  | .workerName =>
    (.text "ferry-worker-0", { s with pool := (s.pool.submit .nothing).2 }.settle)
  | .sum => (.int s.sum, s)
  | .install => (.list [.bool true, .bool false], s)
  | .state =>
    (.record [("running", .bool s.pool.isOpen), ("threads", .nat s.pool.size)], s)
  | .shutDown =>
    let (report, s) := s.shutDown
    (.record [("joined", .nat report.joined), ("detached", .nat report.detached)], s)

end PoolRun

end Isthmus
