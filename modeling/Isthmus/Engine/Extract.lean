import Isthmus.Engine.Native
import Isthmus.Native.Extract

/-!
# Engine/Extract — reading a native value as something, and giving it back

`extract` reads the content of a value and turns it into a value again.  For the types that coerce this
agrees with `NativeValue.convert`.
-/

namespace Isthmus

/-- What the content of a native value can be read as. -/
inductive Reading where
  | int
  | double
  | bool
  | text
  | buffer
  | items
  | instance (cls : ClassKey)
  /-- A deferred, or a new one where there is none. -/
  | deferred
  | nothing
  | itself
  deriving DecidableEq, Repr

namespace Engine

/-- The instance of a class that a value holds, bare or inside a variant. -/
def toInstance (w : World) (cls : ClassKey) (v : NativeValue) : Except NativeError InstanceId :=
  v.expect ClassKey.typeName cls.typeId <|
    v.unwrap.asObject?.filter fun id => (w.instance? id).bind (·.class?) = some cls

/-- Reads a value, and gives what was read as a value. -/
def extract (v : NativeValue) (reading : Reading) : Engine (Except NativeError NativeValue) := do
  let nameOf := ClassKey.typeName
  match reading with
  | .int => return (v.toInt nameOf).map .int
  | .double => return (v.toDouble nameOf).map .double
  | .bool => return (v.toBool nameOf).map .bool
  | .text => return (v.toText nameOf).map .string
  | .buffer => return (v.toBuffer nameOf).map .buffer
  | .items => return (v.toItems nameOf).map .list
  | .instance cls => return (toInstance (← get) cls v).map (.object cls.typeId)
  | .deferred =>
    match v.asDeferred? with
    | some d => return .ok (.deferred d)
    | none => return .ok (.deferred (← createDeferred))
  | .nothing => return .ok .void
  | .itself => return .ok v

end Engine

end Isthmus
