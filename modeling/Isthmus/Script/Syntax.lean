import Isthmus.Library.Class

/-!
# Script/Syntax — what a session can be told to do

A session runs steps.  A step is an action, and may keep the foreign value that the action gives in a
variable.  Functions written in a script hold their body as data; the names in it are looked up when
the body runs.
-/

namespace Isthmus.Script

/-- Native functions that need no body. -/
inductive Stock where
  /-- Gives the number that belongs to the function. -/
  | data
  | argumentCount
  | receiver
  | firstArgument
  /-- Marks the receiver as made, and by which constructor. -/
  | made
  /-- Gives a new object tagged with the first argument. -/
  | object
  /-- Throws. -/
  | fail
  /-- Reads the slot of the receiver. -/
  | getSlot
  /-- Writes the slot of the receiver. -/
  | setSlot
  deriving DecidableEq, Repr

/-- The name under which a stock function is known. -/
def Stock.name : Stock → String
  | data => "data"
  | argumentCount => "argc"
  | receiver => "this"
  | firstArgument => "arg0"
  | made => "made"
  | object => "object"
  | fail => "fail"
  | getSlot => "get_slot"
  | setSlot => "set_slot"

/-- All stock functions. -/
def Stock.all : List Stock :=
  [data, argumentCount, receiver, firstArgument, made, object, fail, getSlot, setSlot]

/-- The stock function of a name. -/
def Stock.ofName? (name : String) : Option Stock :=
  all.find? (·.name = name)

/-- Settings of a converter registry, applied in this order. -/
structure RegistrySpec where
  config : Option String := none
  maxBufferLength : Option Nat := none
  dynamic : Option (List TypeId) := none
  classes : List ClassKey := []
  /-- The void type and the text "nil" stand for each other. -/
  voidAsNil : Bool := false
  /-- Buffers become their length. -/
  bufferAsLength : Bool := false
  /-- Strings do not convert: trying throws. -/
  stringThrows : Bool := false

/-- How a context is set up. -/
inductive Setup where
  | bare
  | bridge (spec : RegistrySpec)
  /-- With a configuration text and all library classes exported. -/
  | host (config : Option String)

/-- A call straight to a native instance or class. -/
inductive NativeCall where
  | invoke (index : Nat) (args : List Recipe)
  | invokeStatic (index : Nat) (args : List Recipe)
  | read (index : Nat)
  | write (index : Nat) (value : Recipe)

/-- Data to attach to an object. -/
inductive Payload where
  | text (value : String)
  | number (value : Nat)
  | unit
  deriving DecidableEq, Repr

/-- Where the instance of a new handle comes from. -/
inductive HandleSource where
  /-- A fresh instance, owned by the handle alone. -/
  | fresh
  /-- A named instance, shared. -/
  | shared (inst : String)
  /-- A named instance, owned by the handle alone; `keep` leaves it under its name as well. -/
  | adopted (inst : String) (keep : Bool)

/-- What to do with contexts. -/
inductive ContextAction where
  | create (name : String) (setup : Setup)
  | use (name : String)
  | drop (name : String)
  | install (spec : RegistrySpec)
  | isInstalled
  | scopes (count : Nat)
  | diagnostics
  | report (text : String)
  | instanceData (text : Option String)

mutual

/-- An expression for a foreign value. -/
inductive Expr where
  | undefined
  | null
  | bool (value : Bool)
  | number (value : Float)
  | string (value : String)
  | array (items : List Expr)
  | object (entries : List (String × Expr))
  | variable (name : String)
  | buffer (bytes : Array UInt8)
  | error (name message : String)
  | function (closure : Closure)
  | stock (code : Stock) (data : Nat)
  /-- The path of a file with the given contents. -/
  | file (bytes : Array UInt8)
  | global
  | path (start : Expr) (keys : List String)
  | argument (index : Nat)
  | receiver
  | argumentCount
  | isNew

/-- A function written in a script. -/
inductive Closure where
  | mk (name : String) (quiet : Bool) (body : List Step) (result thrown : Option Expr)

/-- A property to define. -/
inductive PropertySpec where
  | method (name : String) (code : Stock) (data : Nat) (isStatic readOnly : Bool)
  | accessor (name : String) (getter setter : Option Stock) (data : Nat) (isStatic readOnly : Bool)
  | value (name : String) (value : Expr) (isStatic readOnly : Bool)

/-- What to do with values and objects. -/
inductive ObjectAction where
  | eval (v : Expr)
  | drop (name : String)
  | note (args : List Expr)
  | get (obj : Expr) (name : String)
  | getValue (v : Expr) (name : String)
  | set (obj : Expr) (name : String) (v : Expr)
  | call (fn : Expr) (receiver : Option Expr) (args : List Expr)
  | callMethod (obj : Expr) (name : String) (args : List Expr)
  | construct (cls : Expr) (args : List Expr)
  | createInstance (cls : Expr)
  | createWithPrototype (proto : Option Expr)
  | keys (obj : Expr)
  | hasOwn (obj : Expr) (name : String)
  | prototypeOf (obj : Expr)
  | describe (v : Expr)
  | strictEquals (a b : Expr)
  | handleCount (name : String)
  | inspect (v : Expr)
  | define (obj : Expr) (specs : List PropertySpec)
  | defineClass (name : String) (code : Stock) (data : Nat) (specs : List PropertySpec)
  | wrap (obj : Expr) (data : Payload)
  | unwrap (obj : Expr)
  | addFinalizer (obj : Expr) (label : String)
  | reportException (v : Expr)

/-- What to do with promises and loops. -/
inductive LoopAction where
  | newPromise (name : String)
  | settle (name : String) (fulfil : Bool) (v : Expr)
  | dropResolver (name : String)
  | onSettled (promise : Expr) (label : String) (body : List Step)
  | promiseState (v : Expr)
  | keepLoop (name : String)
  | liveRegistrations (name : String)
  | newTicket (name : String) (loop : Option String)
  | sendTicket (name label : String) (body : List Step)
  | dropTicket (name : String)
  | runPending
  | runUntilIdle (waits : Bool)
  | loopState
  | bridgeState

/-- What to do with conversions and classes. -/
inductive ClassAction where
  | toForeign (v : Recipe)
  | canToForeign (v : Recipe)
  | fromForeign (v : Expr) (type : TypeId) (keepAs : Option String)
  | canFromForeign (v : Expr) (type : TypeId)
  | registry (types : List TypeId)
  | exportAll (target : Expr)
  | classOf (cls : ClassKey)
  | wrapNative (cls : ClassKey) (v : Recipe)
  | wrapInstance (cls : ClassKey) (v : Recipe)
  | hostClass (name : String)
  | hostConstruct (name : String) (args : List Expr)
  | hostExports

/-- What to do with native instances, handles, events, deferreds and buffers. -/
inductive NativeAction where
  | newNative (name : String) (cls : ClassKey) (matrix : Option Recipe)
  | dropNative (name : String)
  | callNative (name : String) (cls : ClassKey) (call : NativeCall)
  | newHandle (name : String) (cls : ClassKey) (source : HandleSource)
  | bindHandle (name : String) (obj : Expr)
  | dropHandle (name : String)
  | handleOf (obj : Expr)
  | watchObject (name : String) (obj : Expr)
  | watchHandle (name : String) (handle : String)
  | watchState (name : String)
  | newSource (name : String)
  | sourceOf (inst : String) (cls : ClassKey) (name : String)
  | sinkCount (name : String)
  | emit (name : String) (index : Nat) (args : List Recipe)
  | connect (name source : String) (cls : ClassKey)
  | subscribe (name channel : String) (callback : Option Expr)
  | isSubscribed (name channel : String)
  | disconnect (name : String)
  | newDeferred (name : String)
  | completeDeferred (name : String) (status : DeferredStatus) (value : Recipe)
  | deferredState (name : String)
  | dropDeferred (name : String)
  | newBuffer (name : String) (bytes : Array UInt8) (label : Option String)
  | cloneBuffer (name source : String)
  | dropBuffer (name : String)
  | bufferInfo (name : String)
  | sameBuffer (name other : String)

/-- One thing a session can be told to do. -/
inductive Action where
  | onContext (a : ContextAction)
  | onObject (a : ObjectAction)
  | onLoop (a : LoopAction)
  | onClass (a : ClassAction)
  | onNative (a : NativeAction)

/-- An action, and the variable that keeps its foreign result. -/
inductive Step where
  | mk (action : Action) (keep : Option String)

end

instance : Inhabited Expr := ⟨.undefined⟩
instance : Inhabited Closure := ⟨.mk "" true [] none none⟩

namespace Step

def action : Step → Action
  | mk action _ => action

def keep : Step → Option String
  | mk _ keep => keep

end Step

namespace Closure

def name : Closure → String
  | mk name .. => name

end Closure

end Isthmus.Script
