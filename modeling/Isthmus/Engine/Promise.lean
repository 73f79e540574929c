import Isthmus.Engine.Runner

/-!
# Engine/Promise — promises and their reactions

A promise is settled at most once.  Its reactions run when it is settled, in the order of registration, or
at once if it already is.
-/

namespace Isthmus.Engine

variable (run : Runner)

/-- Adds a pending promise. -/
def createPromise (cx : ContextId) : Engine ObjectId :=
  allocate { context := cx, kind := .promise (.pending []) }

/-- Notes what happens to a promise. -/
def observe (promise : ObjectId) (e : PromiseEvent) : Engine Unit :=
  modify (·.observe promise e)

/-- Runs a reaction of a promise. -/
def react (cx : ContextId) (promise : ObjectId) (r : Reaction) (fulfil : Bool) (v : ForeignValue) :
    Engine Unit := do
  observe promise (.began r fulfil v)
  run.react cx r fulfil v
  observe promise (.ended r)

/-- Settles a promise and runs its reactions; one that is settled stays as it is. -/
def settle (cx : ContextId) (promise : ObjectId) (fulfil : Bool) (v : ForeignValue) :
    Engine Unit := do
  let o ← object promise
  match o.kind with
  | .promise (.pending reactions) =>
    let state := if fulfil then PromiseState.fulfilled v else .rejected v
    modifyObject promise ({ · with kind := .promise state })
    observe promise (.settled fulfil v)
    reactions.forM (react run cx promise · fulfil v)
  | _ => return

/-- Registers a reaction. -/
def onSettled (cx : ContextId) (promise : ObjectId) (r : Reaction) : Engine Unit := do
  checkOwned cx promise
  let o ← object promise
  match o.kind with
  | .promise (.pending reactions) =>
    modifyObject promise ({ · with kind := .promise (.pending (reactions ++ [r])) })
    observe promise (.registered r)
  | .promise (.fulfilled v) =>
    observe promise (.registered r)
    hold v.refs
    react run cx promise r true v
  | .promise (.rejected v) =>
    observe promise (.registered r)
    hold v.refs
    react run cx promise r false v
  | _ => return

end Isthmus.Engine
