import Isthmus.World.Basic

/-!
# World/Lookup — finding properties along prototypes

A prototype is older than the objects that have it, so the search along prototypes ends at the oldest.
-/

namespace Isthmus.World

/-- The definition of a name nearest to an object, and whether it is the object's own. -/
def lookup (w : World) (id : ObjectId) (name : String) : Option (Property × Bool) :=
  match w.object? id with
  | none => none
  | some o =>
    match o.own? name with
    | some p => some (p, true)
    | none =>
      match o.prototype with
      | none => none
      | some proto =>
        if proto.index < id.index then (lookup w proto name).map fun (p, _) => (p, false) else none
termination_by id.index

end Isthmus.World
