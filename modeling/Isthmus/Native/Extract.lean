import Isthmus.Native.Coercion
import Isthmus.Native.Error

/-!
# Native/Extract — typed contents of native values

Each reader gives the content of one type, or a type mismatch that names the wanted type and the
value's own.  Numbers and truth values are coerced; texts, buffers and lists must be what they are,
bare or inside a variant.
-/

namespace Isthmus.NativeValue

variable (nameOf : TypeId → String)

/-- The value is not one of the expected type. -/
def mismatch (expected : TypeId) (v : NativeValue) : NativeError :=
  .typeMismatch (nameOf expected) (nameOf v.typeId)

/-- Turns a missing content into the mismatch. -/
def expect {α : Type} (expected : TypeId) (v : NativeValue) : Option α → Except NativeError α
  | some a => .ok a
  | none => .error (mismatch nameOf expected v)

def toInt (v : NativeValue) : Except NativeError Int32 :=
  expect nameOf .int v ((v.convert .int).bind asInt?)

def toDouble (v : NativeValue) : Except NativeError Float :=
  expect nameOf .double v ((v.convert .double).bind asDouble?)

def toBool (v : NativeValue) : Except NativeError Bool :=
  expect nameOf .bool v ((v.convert .bool).bind asBool?)

def toText (v : NativeValue) : Except NativeError String :=
  expect nameOf .string v v.unwrap.asString?

def toBuffer (v : NativeValue) : Except NativeError Buffer :=
  expect nameOf .buffer v v.unwrap.asBuffer?

def toItems (v : NativeValue) : Except NativeError (List NativeValue) :=
  expect nameOf .list v v.unwrap.asList?

end Isthmus.NativeValue
