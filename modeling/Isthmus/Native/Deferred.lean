import Isthmus.Native.Value

/-!
# Native/Deferred — a result that is assigned once

A deferred is pending until the first completion, which fixes its status and value.  It has room for
one continuation: attaching another replaces it unrun, a completion takes it out to be run, and when
the last handle goes while the deferred is still pending it is taken out to be run with a rejection.
The continuation's own type `κ` is up to the user of the cell.
-/

namespace Isthmus

/-- How far a deferred has come. -/
inductive DeferredStatus where
  | pending
  | resolved
  | rejected
  deriving DecidableEq, Repr, Inhabited

namespace DeferredStatus

def name : DeferredStatus → String
  | pending => "Pending"
  | resolved => "Resolved"
  | rejected => "Rejected"

end DeferredStatus

/-- One deferred result. -/
structure Deferred (κ : Type) where
  status : DeferredStatus := .pending
  value : NativeValue := .void
  continuation : Option κ := none

namespace Deferred

variable {κ : Type}

/-- The reason given when a deferred is dropped without a result. -/
def droppedReason : NativeValue :=
  .string "deferred dropped without a result"

/-- The value, once there is one. -/
def result? (d : Deferred κ) : Option NativeValue :=
  match d.status with
  | .pending => none
  | _ => some d.value

/-- The first completion fixes status and value and takes the continuation; later ones are refused, and
so is one that would leave the deferred pending. -/
def complete (d : Deferred κ) (status : DeferredStatus) (value : NativeValue) :
    Option (Deferred κ × Option κ) :=
  if d.status = .pending ∧ status ≠ .pending then
    some ({ status, value, continuation := none }, d.continuation)
  else none

/-- What attaching a continuation did. -/
inductive Attached (κ : Type) where
  /-- It waits for the completion; the one it replaced will never run. -/
  | waiting (replaced : Option κ)
  /-- The deferred is complete: the continuation runs now, with this outcome. -/
  | ready (status : DeferredStatus) (value : NativeValue)

/-- Attaches a continuation. -/
def attach (d : Deferred κ) (k : κ) : Deferred κ × Attached κ :=
  match d.status with
  | .pending => ({ d with continuation := some k }, .waiting d.continuation)
  | status => (d, .ready status d.value)

/-- The continuation that runs, with `droppedReason`, when the last handle goes. -/
def abandoned (d : Deferred κ) : Option κ :=
  match d.status with
  | .pending => d.continuation
  | _ => none

theorem pending_of_abandoned {d : Deferred κ} {k : κ} (h : d.abandoned = some k) :
    d.status = .pending := by
  rw [abandoned] at h
  split at h
  · assumption
  · cases h

theorem abandoned_of_pending {d : Deferred κ} (h : d.status = .pending) :
    d.abandoned = d.continuation := by
  rw [abandoned, h]

end Deferred

end Isthmus
