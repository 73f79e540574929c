import Isthmus.Engine.Basic

/-!
# Engine/Runner — running callbacks

Operations on objects may run code: getters, setters, functions, reactions of promises, scripts that
were sent.  They take a `Runner`, which says how code runs, so that the operations can be stated before
the code that itself uses them.
-/

namespace Isthmus

/-- How code runs. -/
structure Runner where
  /-- Calls the code of a function, getter or setter in a context. -/
  call : ContextId → Callback → CallInfo → Engine ForeignValue
  /-- Runs a reaction with the outcome of its promise. -/
  react : ContextId → Reaction → Bool → ForeignValue → Engine Unit
  /-- Runs a script that was sent to a context. -/
  deliver : ContextId → String → List Script.Step → Engine Unit

/-- Runs nothing: any code counts as not coming to an end. -/
def Runner.exhausted : Runner where
  call _ _ _ := throw .exhausted
  react _ _ _ _ := throw .exhausted
  deliver _ _ _ := throw .exhausted

end Isthmus
