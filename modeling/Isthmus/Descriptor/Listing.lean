import Isthmus.Descriptor.Basic
import Isthmus.Document.Basic
import Isthmus.Number.Shortest
import Isthmus.Text.Quoted

/-!
# Descriptor/Listing — a descriptor for readers

`listing` writes one line a member: methods, properties, events, constants.  `document` is the same
content as a structured document; of two constants with one name the later one counts there.
-/

namespace Isthmus

/-- The text of a constant. -/
def Constant.text : Constant → String
  | bool b => if b then "true" else "false"
  | int i => toString i.toInt
  | double d => Number.plain d
  | string s => Text.quoted s

/-- What may be done with a property. -/
def PropertyDescriptor.access (p : PropertyDescriptor) : String :=
  match p.readable, p.writable with
  | true, true => "rw"
  | true, false => "ro"
  | false, true => "wo"
  | false, false => "--"

/-- A constant as a document; a double that is not finite has no form. -/
def Constant.document : Constant → Document
  | bool b => .bool b
  | int i => .int i.toInt
  | double d => if d.isFinite then .double d else .null
  | string s => .text s

/-- The last entry of each name, in the order in which the names first occur. -/
def lastOfEach {α : Type} : List (String × α) → List (String × α)
  | [] => []
  | (name, a) :: rest =>
    let last := (rest.reverse.find? (·.1 = name)).getD (name, a)
    last :: (lastOfEach rest).filter (·.1 ≠ name)

namespace TypeDescriptor

variable (nameOf : TypeId → String)

/-- The methods that are called, not fired. -/
def callables (d : TypeDescriptor) : List MethodDescriptor :=
  d.methods.filter (!·.isEvent)

/-- The descriptor, one line a member. -/
def listing (d : TypeDescriptor) : String :=
  let methods := d.callables.map fun m =>
    "  " ++ (if m.isStatic then "static " else "") ++ m.signature nameOf ++ " -> " ++
      nameOf m.returns
  let properties := d.properties.map fun p =>
    "  property " ++ p.name ++ ": " ++ nameOf p.type ++ " [" ++ p.access ++ "]"
  let events := (d.channels nameOf).map ("  event " ++ ·)
  let constants := d.constants.map fun (name, c) => "  const " ++ name ++ " = " ++ c.text
  let lines := ("class " ++ d.name) :: methods ++ properties ++ events ++ constants
  "".intercalate (lines.map (· ++ "\n"))

/-- The descriptor as a document. -/
def document (d : TypeDescriptor) : Document :=
  let methods := d.callables.map fun m => Document.record
    [("name", .text m.name), ("parameters", .list (m.parameters.map fun t => .text (nameOf t))),
      ("returns", .text (nameOf m.returns)), ("static", .bool m.isStatic)]
  let properties := d.properties.map fun p => Document.record
    [("name", .text p.name), ("type", .text (nameOf p.type)), ("readable", .bool p.readable),
      ("writable", .bool p.writable)]
  .record
    [("name", .text d.name), ("methods", .list methods), ("properties", .list properties),
      ("events", .list ((d.channels nameOf).map .text)),
      ("constants", .record ((lastOfEach d.constants).map fun (name, c) => (name, c.document)))]

end TypeDescriptor

end Isthmus
