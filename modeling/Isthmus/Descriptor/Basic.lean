import Isthmus.Native.Value

/-!
# Descriptor/Basic — what a reflected type declares

Methods, static methods and events share one sequence of indices, properties have their own.  A
descriptor is built member by member, and a member's index is its place in the declaration order.
-/

namespace Isthmus

/-- Whether a callable member is called or fired. -/
inductive MemberKind where
  | method
  | event
  deriving DecidableEq, Repr

/-- A method, a static method or an event. -/
structure MethodDescriptor where
  name : String
  parameters : List TypeId
  returns : TypeId
  isStatic : Bool
  kind : MemberKind
  deriving DecidableEq, Repr

namespace MethodDescriptor

def arity (m : MethodDescriptor) : Nat :=
  m.parameters.length

def isEvent (m : MethodDescriptor) : Bool :=
  m.kind = .event

/-- The name with the names of the parameter types. -/
def signature (nameOf : TypeId → String) (m : MethodDescriptor) : String :=
  m.name ++ "(" ++ ",".intercalate (m.parameters.map nameOf) ++ ")"

end MethodDescriptor

/-- A property. -/
structure PropertyDescriptor where
  name : String
  type : TypeId
  readable : Bool
  writable : Bool
  deriving DecidableEq, Repr

/-- The value of a class constant. -/
inductive Constant where
  | bool (value : Bool)
  | int (value : Int32)
  | double (value : Float)
  | string (value : String)

/-- A constant as a native value. -/
def Constant.toNative : Constant → NativeValue
  | bool b => .bool b
  | int i => .int i
  | double d => .double d
  | string s => .string s

/-- Everything a reflected type declares. -/
structure TypeDescriptor where
  name : String
  methods : List MethodDescriptor := []
  properties : List PropertyDescriptor := []
  constants : List (String × Constant) := []

namespace TypeDescriptor

/-! ## Building -/

def method (d : TypeDescriptor) (name : String) (parameters : List TypeId) (returns : TypeId) :
    TypeDescriptor :=
  { d with methods := d.methods ++ [⟨name, parameters, returns, false, .method⟩] }

def static (d : TypeDescriptor) (name : String) (parameters : List TypeId) (returns : TypeId) :
    TypeDescriptor :=
  { d with methods := d.methods ++ [⟨name, parameters, returns, true, .method⟩] }

def event (d : TypeDescriptor) (name : String) (parameters : List TypeId) : TypeDescriptor :=
  { d with methods := d.methods ++ [⟨name, parameters, .void, false, .event⟩] }

def property (d : TypeDescriptor) (name : String) (type : TypeId) : TypeDescriptor :=
  { d with properties := d.properties ++ [⟨name, type, true, true⟩] }

def readonly (d : TypeDescriptor) (name : String) (type : TypeId) : TypeDescriptor :=
  { d with properties := d.properties ++ [⟨name, type, true, false⟩] }

def constant (d : TypeDescriptor) (name : String) (value : Constant) : TypeDescriptor :=
  { d with constants := d.constants ++ [(name, value)] }

/-! ## Asking -/

/-- The index of the first method, static or event of a name. -/
def methodIndex? (d : TypeDescriptor) (name : String) : Option Nat :=
  d.methods.findIdx? (·.name = name)

/-- The index of the first property of a name. -/
def propertyIndex? (d : TypeDescriptor) (name : String) : Option Nat :=
  d.properties.findIdx? (·.name = name)

/-- The events with their indices, in declaration order. -/
def events (d : TypeDescriptor) : List (Nat × MethodDescriptor) :=
  (d.methods.zipIdx.map fun (m, i) => (i, m)).filter (·.2.isEvent)

def hasEvents (d : TypeDescriptor) : Bool :=
  d.methods.any (·.isEvent)

/-- The signatures of the event channels, in declaration order. -/
def channels (nameOf : TypeId → String) (d : TypeDescriptor) : List String :=
  d.events.map (·.2.signature nameOf)

end TypeDescriptor

end Isthmus
