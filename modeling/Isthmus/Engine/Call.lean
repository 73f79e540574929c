import Isthmus.Engine.Property

/-!
# Engine/Call — calling functions and constructing objects
-/

namespace Isthmus.Engine

variable (run : Runner)

/-- The function that a value is. -/
def callable (cx : ContextId) (f : ForeignValue) : Engine (ObjectId × Callback × Nat) := do
  let w ← get
  match f with
  | .object id =>
    match (w.object? id).bind (·.function?) with
    | some (_, code, data) => return (id, code, data)
    | none => raiseTypeError cx ((← describe f) ++ " is not a function")
  | _ => raiseTypeError cx ((← describe f) ++ " is not a function")

/-- Calls a function. -/
def call (cx : ContextId) (f : ForeignValue) (receiver : ForeignValue) (args : List ForeignValue) :
    Engine ForeignValue := do
  let (id, code, data) ← callable cx f
  checkOwned cx id
  run.call cx code { receiver, args, data }

/-- Calls a method of an object by its name. -/
def callMethod (cx : ContextId) (id : ObjectId) (name : String) (args : List ForeignValue) :
    Engine ForeignValue := do
  let f ← getProperty run cx id name
  if !(← get).isFunction f then raiseTypeError cx (name ++ " is not a function")
  call run cx f (.object id) args

/-- Adds an ordinary object with the given prototype. -/
def createWithPrototype (cx : ContextId) (proto : Option ObjectId) : Engine ObjectId := do
  if let some p := proto then checkOwned cx p
  allocate { context := cx, prototype := proto }

/-- Adds an object with the prototype of a class, without running its constructor. -/
def createInstance (cx : ContextId) (cls : ObjectId) : Engine ObjectId := do
  let proto ← getProperty run cx cls "prototype"
  createWithPrototype cx proto.asObject?

/-- Constructs an object: the constructor may give another object instead. -/
def construct (cx : ContextId) (cls : ForeignValue) (args : List ForeignValue) :
    Engine ForeignValue := do
  let (id, code, data) ← callable cx cls
  checkOwned cx id
  let this ← createInstance run cx id
  match ← run.call cx code { receiver := .object this, args, data, newTarget := some id } with
  | .object o => return .object o
  | _ => return .object this

end Isthmus.Engine
