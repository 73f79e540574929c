import Isthmus.Foreign.Value
import Isthmus.Script.Syntax

/-!
# Foreign/Object — what a foreign object consists of

An object has a kind, a prototype, properties in the order of their definition, and perhaps native
data.  Functions, getters and setters are data: `Callback` names the code that runs.
-/

namespace Isthmus

/-- The identity of a context: its place in the order of creation. -/
structure ContextId where
  index : Nat
  deriving DecidableEq, Repr, Inhabited

/-- The identity of an object handle. -/
structure HandleId where
  index : Nat
  deriving DecidableEq, Repr, Inhabited

/-- The functions of a generated class. -/
inductive MemberRole where
  | construct
  | invoke
  | invokeStatic
  | get
  | set
  | on
  deriving DecidableEq, Repr

/-- The code of a function, getter or setter. -/
inductive Callback where
  /-- Writes its arguments to the diagnostics of the context. -/
  | consoleError
  | member (cls : ClassKey) (role : MemberRole)
  | stock (code : Script.Stock)
  | closure (c : Script.Closure)

/-- The code of a getter or setter.  A host may give any function for one; those that scripts can ask for
neither deliver nor fire.  Laws about runs let a delivery begin while a value is being converted. -/
inductive Accessor where
  | stock (code : Script.Stock)
  /-- Reads a property of a native instance. -/
  | reader (cls : ClassKey)
  /-- Writes a property of a native instance. -/
  | writer (cls : ClassKey)

/-- A getter or setter as code. -/
def Accessor.callback : Accessor → Callback
  | stock code => .stock code
  | reader cls => .member cls .get
  | writer cls => .member cls .set

/-- How a function is called. -/
structure CallInfo where
  receiver : ForeignValue := .undefined
  args : List ForeignValue := []
  /-- The number that belongs to the function or accessor. -/
  data : Nat := 0
  /-- The constructor, in a construct call. -/
  newTarget : Option ObjectId := none

namespace CallInfo

/-- The argument at an index; missing ones are undefined. -/
def arg (info : CallInfo) (index : Nat) : ForeignValue :=
  info.args[index]?.getD .undefined

def isConstructCall (info : CallInfo) : Bool :=
  info.newTarget.isSome

end CallInfo

/-- A property of an object. -/
inductive Property where
  | data (value : ForeignValue) (writable enumerable : Bool)
  | accessor (getter setter : Option Accessor) (data : Nat) (enumerable : Bool)

namespace Property

def isEnumerable : Property → Bool
  | data _ _ enumerable => enumerable
  | accessor _ _ _ enumerable => enumerable

/-- A plain property. -/
def plain (v : ForeignValue) : Property :=
  data v true true

end Property

/-- A script that waits for a promise. -/
structure Reaction where
  label : String
  body : List Script.Step

/-- How far a promise has come. -/
inductive PromiseState where
  | pending (reactions : List Reaction)
  | fulfilled (value : ForeignValue)
  | rejected (reason : ForeignValue)

namespace PromiseState

/-- The state as error texts show it. -/
def label : PromiseState → String
  | pending _ => "<pending>"
  | fulfilled _ => "<fulfilled>"
  | rejected _ => "<rejected>"

end PromiseState

/-- What makes an object special. -/
inductive ObjectKind where
  | ordinary
  | array (items : List ForeignValue)
  | function (name : String) (code : Callback) (data : Nat)
  | arrayBuffer (buffer : Buffer)
  | promise (state : PromiseState)
  | error

/-- Native data attached to an object. -/
inductive Attachment where
  | plain (data : Script.Payload)
  | handle (id : HandleId)
  deriving DecidableEq, Repr

/-- A foreign object. -/
structure Object where
  /-- The context that created it. -/
  context : ContextId
  kind : ObjectKind := .ordinary
  prototype : Option ObjectId := none
  /-- In the order of definition, one entry a name. -/
  properties : List (String × Property) := []
  attachment : Option Attachment := none
  /-- The labels reported when the object goes. -/
  finalizers : List String := []

namespace Object

def items? (o : Object) : Option (List ForeignValue) :=
  match o.kind with
  | .array items => some items
  | _ => none

def buffer? (o : Object) : Option Buffer :=
  match o.kind with
  | .arrayBuffer b => some b
  | _ => none

def function? (o : Object) : Option (String × Callback × Nat) :=
  match o.kind with
  | .function name code data => some (name, code, data)
  | _ => none

def promise? (o : Object) : Option PromiseState :=
  match o.kind with
  | .promise state => some state
  | _ => none

def isFunction (o : Object) : Bool :=
  o.function?.isSome

def isError (o : Object) : Bool :=
  match o.kind with
  | .error => true
  | _ => false

/-- The names of the enumerable properties, in the order of definition. -/
def keys (o : Object) : List String :=
  (o.properties.filter (·.2.isEnumerable)).map (·.1)

/-- The object's own property of a name. -/
def own? (o : Object) (name : String) : Option Property :=
  (o.properties.find? (·.1 = name)).map (·.2)

def hasOwn (o : Object) (name : String) : Bool :=
  o.properties.any (·.1 = name)

/-- Defines a property: in the place of the one with its name, or at the end. -/
def put (o : Object) (name : String) (p : Property) : Object :=
  { o with
    properties :=
      if o.hasOwn name then o.properties.map fun e => if e.1 = name then (name, p) else e
      else o.properties ++ [(name, p)] }

end Object

end Isthmus
