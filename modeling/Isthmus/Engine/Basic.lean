import Isthmus.World.Operation

/-!
# Engine/Basic — running code on the world

`Engine` is the monad of everything that acts on the world.  An action may stop early: by a throw of
foreign code, by a failure that it reports, or by an abort.  Whatever it did until then stays done.

While an action runs it holds the things it works with.  `framed` gives an action a place for them and
afterwards destroys what nobody owns any more.
-/

namespace Isthmus

/-- Acting on the world. -/
abbrev Engine := EStateM Stop World

namespace Engine

variable {α : Type}

/-- Stops because a contract was broken. -/
def abort (text : String) : Engine α :=
  throw (.aborted text)

/-- Stops with a failure. -/
def fail (kind message : String) : Engine α :=
  throw (.failed kind message)

/-- Throws a foreign value. -/
def raise (v : ForeignValue) : Engine α :=
  throw (.thrown v)

/-- Runs an action and gives back how it ended. -/
def attempt (m : Engine α) : Engine (Except Stop α) :=
  tryCatch (do return .ok (← m)) (fun e => return .error e)

/-- Gives a result, or stops. -/
def resume : Except Stop α → Engine α
  | .ok a => pure a
  | .error e => throw e

/-! ## Holding and letting go -/

/-- Keeps things for the duration of the running action. -/
def hold (refs : List Ref) : Engine Unit :=
  modify fun w =>
    { w with
      held := match w.held with
        | frame :: outer => (refs ++ frame) :: outer
        | [] => [refs] }

/-- Keeps a value for the duration of the running action. -/
def keep (v : ForeignValue) : Engine ForeignValue := do
  hold v.refs
  return v

/-- Does what happens at once, and then lets go of what it gave up. -/
def operate (f : World → World × List Farewell) : Engine Unit :=
  modify fun w => (f w).1.release (f w).2

/-- Lets go of references that were just given up. -/
def letGo (refs : List Ref) : Engine Unit :=
  modify (·.letGo refs)

/-- Opens a place for what an action holds. -/
def openFrame : Engine Unit :=
  modify fun w => { w with held := [] :: w.held }

/-- Closes the place for what an action holds, and destroys what has no owner left. -/
def closeFrame : Engine Unit :=
  modify fun w => { w with held := w.held.tail }.sweep

/-- Runs an action that holds things of its own.  A thrown value goes over to the action outside. -/
def framed (m : Engine α) : Engine α := do
  openFrame
  let result ← attempt m
  match result with
  | .error (.thrown v) =>
    modify fun w => { w with
      held := match w.held with
        | frame :: outer :: rest => frame :: (v.refs ++ outer) :: rest
        | frames => frames }
  | _ => pure ()
  closeFrame
  resume result

/-! ## Objects -/

/-- Reads an object. -/
def object (id : ObjectId) : Engine Object := do
  match (← get).object? id with
  | some o => return o
  | none => abort "object is gone"

/-- Adds an object. -/
def allocate (o : Object) : Engine ObjectId := do
  let w ← get
  let id : ObjectId := ⟨w.objects.next⟩
  set { w with objects := w.objects.insert o }
  hold [.object id]
  return id

/-- Adds an array of values, which are there. -/
def createArray (cx : ContextId) (items : List ForeignValue) : Engine ObjectId := do
  if items.all (← get).isPresent then allocate { context := cx, kind := .array items }
  else abort "object is gone"

/-- Changes an object. -/
def modifyObject (id : ObjectId) (f : Object → Object) : Engine Unit :=
  modify fun w => { w with objects := w.objects.modify id.index f }

/-- Defines a property of an object, and lets go of the value that it replaces. -/
def putOwn (id : ObjectId) (name : String) (p : Property) : Engine Unit := do
  let o ← object id
  modifyObject id (·.put name p)
  letGo (refsOf Property.refs (o.own? name))

/-- Adds an object that stands for an error. -/
def createError (cx : ContextId) (name message : String) : Engine ObjectId :=
  allocate
    { context := cx
      kind := .error
      properties := [("name", .data (.string name) true false),
        ("message", .data (.string message) true false)] }

/-- Throws an error. -/
def raiseError (cx : ContextId) (message : String) : Engine α := do
  raise (.object (← createError cx "Error" message))

/-- Throws a type error. -/
def raiseTypeError (cx : ContextId) (message : String) : Engine α := do
  raise (.object (← createError cx "TypeError" message))

/-- Aborts if an object belongs to another context. -/
def checkOwned (cx : ContextId) (id : ObjectId) : Engine Unit := do
  let o ← object id
  if o.context ≠ cx then
    abort ("object from context #" ++ toString o.context.index ++ " used in context #" ++
      toString cx.index)

/-! ## Contexts -/

/-- Reads a context. -/
def context (cx : ContextId) : Engine Context := do
  match (← get).context? cx with
  | some c => return c
  | none => abort "context is gone"

/-- Changes a context. -/
def modifyContext (cx : ContextId) (f : Context → Context) : Engine Unit :=
  modify fun w => { w with contexts := w.contexts.modify cx.index f }

/-- Writes a line to the diagnostics of a context. -/
def report (cx : ContextId) (line : String) : Engine Unit :=
  modifyContext cx fun c => { c with diagnostics := c.diagnostics ++ [line] }

/-- Writes to the log. -/
def note (entry : Document) : Engine Unit :=
  modify fun w => { w with log := entry :: w.log }

end Engine

end Isthmus
