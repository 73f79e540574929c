import Isthmus.Native.Value
import Isthmus.Number.Exact

/-!
# Native/Coercion — values of one type read as another

`canConvert` asks and `convert` does.  A value converts to its own type and to the variant type; a
variant converts as its content does; ints widen to doubles and read as truth values, truth values
read as ints, and doubles within the 32-bit range lose their fraction.
-/

namespace Isthmus.NativeValue

/-- Whether `convert` to `target` succeeds. -/
def canConvert (v : NativeValue) (target : TypeId) : Bool :=
  if v.typeId = target || target = .variant then true
  else
    match v with
    | variant content => canConvert content target
    | int _ => target = .double || target = .bool
    | bool _ => target = .int
    | double d => target = .int && Number.withinInt32 d
    | _ => false

/-- The value as one of type `target`. -/
def convert (v : NativeValue) (target : TypeId) : Option NativeValue :=
  if v.typeId = target then some v
  else if target = .variant then some v.toVariant
  else
    match v with
    | variant content => convert content target
    | int i =>
      if target = .double then some (double (Number.ofInt32 i))
      else if target = .bool then some (bool (i != 0))
      else none
    | bool b => if target = .int then some (int (if b then 1 else 0)) else none
    | double d =>
      if target = .int && Number.withinInt32 d then some (int (Number.truncate d)) else none
    | _ => none

end Isthmus.NativeValue
