import Isthmus.Type.Id

/-!
# Native/Value — tagged values on the native side

Buffers, objects and deferreds are shared: a value holds the identity of the storage, instance or
deferred that it refers to.
-/

namespace Isthmus

/-- Immutable bytes in a shared storage. -/
structure Buffer where
  /-- The identity of the storage. -/
  storage : Nat
  bytes : Array UInt8
  deriving DecidableEq, Repr, Inhabited

/-- The text of a buffer: only its length shows. -/
def Buffer.debug (b : Buffer) : String :=
  "SharedBuffer \x7b len: " ++ toString b.bytes.size ++ " \x7d"

/-- The identity of a native instance. -/
structure InstanceId where
  index : Nat
  deriving DecidableEq, Repr, Inhabited

/-- The identity of a deferred result. -/
structure DeferredId where
  index : Nat
  deriving DecidableEq, Repr, Inhabited

/-- A value of native code. -/
inductive NativeValue where
  | void
  | bool (value : Bool)
  | int (value : Int32)
  | double (value : Float)
  | string (value : String)
  | buffer (value : Buffer)
  | list (items : List NativeValue)
  | variant (content : NativeValue)
  | object (type : TypeId) (inst : InstanceId)
  | deferred (id : DeferredId)
  deriving Inhabited

namespace NativeValue

/-- The tag of a value. -/
def typeId : NativeValue → TypeId
  | void => .void
  | bool _ => .bool
  | int _ => .int
  | double _ => .double
  | string _ => .string
  | buffer _ => .buffer
  | list _ => .list
  | variant _ => .variant
  | object type _ => type
  | deferred _ => .deferred

/-- Wraps a value as a variant; a variant stays as it is. -/
def toVariant (v : NativeValue) : NativeValue :=
  if v.typeId = .variant then v else variant v

/-- The content of a variant, any other value itself. -/
def unwrap : NativeValue → NativeValue
  | variant content => content
  | v => v

def asBool? : NativeValue → Option Bool
  | bool b => some b
  | _ => none

def asInt? : NativeValue → Option Int32
  | int i => some i
  | _ => none

def asDouble? : NativeValue → Option Float
  | double d => some d
  | _ => none

def asString? : NativeValue → Option String
  | string s => some s
  | _ => none

def asBuffer? : NativeValue → Option Buffer
  | buffer b => some b
  | _ => none

def asList? : NativeValue → Option (List NativeValue)
  | list items => some items
  | _ => none

def asObject? : NativeValue → Option InstanceId
  | object _ inst => some inst
  | _ => none

def asDeferred? : NativeValue → Option DeferredId
  | deferred id => some id
  | _ => none

mutual

/-- Equality of native code: tags first, doubles as numbers, buffers by their bytes, objects and
deferreds by identity. -/
def equals : NativeValue → NativeValue → Bool
  | void, void => true
  | bool a, bool b => a == b
  | int a, int b => a == b
  | double a, double b => a == b
  | string a, string b => a == b
  | buffer a, buffer b => a.bytes == b.bytes
  | list a, list b => equalLists a b
  | variant a, variant b => equals a b
  | object s a, object t b => s == t && a == b
  | deferred a, deferred b => a == b
  | _, _ => false

/-- Equal length and equal items. -/
def equalLists : List NativeValue → List NativeValue → Bool
  | [], [] => true
  | a :: as, b :: bs => equals a b && equalLists as bs
  | _, _ => false

end

end NativeValue

end Isthmus
