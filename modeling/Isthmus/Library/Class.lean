import Isthmus.Library.Calculator
import Isthmus.Library.Imaging
import Isthmus.Library.Puppet
import Isthmus.Library.Ticker
import Isthmus.Type.Table

/-!
# Library/Class — the classes there are

The library has four classes; three puppets and a plain class stand in for classes that others write.
`ClassKey.types` registers them all in one order, so their ids are fixed.
-/

namespace Isthmus

/-- A native class. -/
inductive ClassKey where
  | calculator
  | matrix
  | imaging
  | ticker
  | puppet (index : Fin 3)
  | plain
  deriving DecidableEq, Repr

namespace ClassKey

/-- The name of the class among native types. -/
def name : ClassKey → String
  | calculator => "Calculator"
  | matrix => "Matrix"
  | imaging => "Imaging"
  | ticker => "Ticker"
  | puppet i => "Puppet" ++ toString i.val
  | plain => "Plain"

/-- The classes of the library, in the order in which they are exported. -/
def library : List ClassKey :=
  [calculator, matrix, imaging, ticker]

/-- The puppets. -/
def puppets : List ClassKey :=
  [puppet 0, puppet 1, puppet 2]

/-- All classes, in the order in which they are registered. -/
def all : List ClassKey :=
  library ++ puppets ++ [plain]

/-- The class of a name. -/
def ofName? (name : String) : Option ClassKey :=
  all.find? (·.name = name)

/-- The ids of all classes. -/
def types : TypeTable ClassKey :=
  all.foldl (fun table key => (table.register key key.name).2) {}

/-- The id of a class. -/
def typeId (key : ClassKey) : TypeId :=
  (types.idOf key).getD .void

/-- The name of a type. -/
def typeName (id : TypeId) : String :=
  types.name id

end ClassKey

/-- The descriptor of the plain class. -/
def Plain.descriptor : TypeDescriptor :=
  ({ name := "Plain" } : TypeDescriptor)
    |>.method "poke" [] .void
    |>.static "make" [] .int
    |>.event "never" [.int]
    |>.property "p" .int

/-- What the puppet classes are. -/
structure Plans where
  plan : Fin 3 → Puppet.Plan := fun _ => {}

/-- The descriptor of a class. -/
def Plans.descriptor (plans : Plans) : ClassKey → TypeDescriptor
  | .calculator => Calculator.descriptor
  | .matrix => Matrix.descriptor
  | .imaging => Imaging.descriptor ClassKey.matrix.typeId
  | .ticker => Ticker.descriptor
  | .puppet i => (plans.plan i).descriptor
  | .plain => Plain.descriptor

end Isthmus
