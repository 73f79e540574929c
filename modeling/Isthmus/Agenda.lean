/-!
# Agenda — tasks that bring up further tasks

An agenda is worked off from the front.  Doing a task may bring up others, which come before all that
still wait: so what a task calls for is done before the task after it begins.
-/

namespace Isthmus.Agenda

variable {σ τ : Type}

/-- Works an agenda off in at most the given number of steps; `none` if that is not enough.  `step` is
told which tasks wait, and answers what comes of a task and which tasks it brings up. -/
def run (step : σ → List τ → τ → σ × List τ) : Nat → σ → List τ → Option σ
  | _, s, [] => some s
  | 0, _, _ :: _ => none
  | steps + 1, s, task :: rest =>
    let (s, more) := step s rest task
    run step steps s (more ++ rest)

/-- More steps than any script that comes to an end needs. -/
def limit : Nat := 1000000

end Isthmus.Agenda
