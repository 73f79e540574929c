import Isthmus.Native.Show
import Isthmus.World.Describe

/-!
# Session/Show — values as documents

What a session answers shows foreign and native values.  Objects are shown by what their kind makes
visible, instances of matrices by their pixels, deferreds by their result.
-/

namespace Isthmus

/-- The name of a state. -/
def HandleState.name : HandleState → String
  | unbound => "Unbound"
  | bound => "Bound"
  | released => "Released"

/-- The name of a mode. -/
def Ownership.name : Ownership → String
  | exclusive => "Exclusive"
  | shared => "Shared"

namespace World

variable (w : World)

/-! ## Foreign values -/

/-- The name of the class whose instance is attached to an object of the context. -/
def attachedClass (cx : ContextId) (o : Object) : Document :=
  if o.context ≠ cx then .null
  else
    match o.attachment with
    | some (.handle h) =>
      match w.handle? h with
      | some handle => .text (ClassKey.typeName handle.cls.typeId)
      | none => .null
    | _ => .null

/-- A foreign value, looking into at most `depth` objects inside each other. -/
def showWithin (cx : ContextId) (depth : Nat) (v : ForeignValue) : Document :=
  match depth, v with
  | _, .undefined => .record [("u", .bool true)]
  | _, .null => .null
  | _, .bool b => .bool b
  | _, .number n => .double n
  | _, .string s => .text s
  | 0, .object _ => .null
  | depth + 1, .object id =>
    match w.object? id with
    | none => .null
    | some o =>
      match o.kind with
      | .array items => .list (items.map (showWithin cx depth))
      | .function name .. => .record [("function", .text name)]
      | .arrayBuffer b => .record [("buffer", .text (Text.hexBytes b.bytes))]
      | .error => .record [("error", .text ((w.describe? v).getD ""))]
      | .promise (.pending _) => .record [("promise", .text "pending")]
      | .promise (.fulfilled v) =>
        .record [("promise", .text "fulfilled"), ("value", showWithin cx depth v)]
      | .promise (.rejected v) =>
        .record [("promise", .text "rejected"), ("value", showWithin cx depth v)]
      | .ordinary =>
        .record [("object", .texts o.keys), ("class", w.attachedClass cx o)]

/-- A foreign value as a document. -/
def showForeign (cx : ContextId) (v : ForeignValue) : Document :=
  w.showWithin cx (w.objects.size + 1) v

/-! ## Native values -/

/-- What native values of the world refer to. -/
def scene : Scene where
  nameOf := ClassKey.typeName
  matrix? id :=
    match w.instance? id with
    | some (.matrix m) => some m
    | _ => none
  deferred? id := (w.deferred? id).map fun d => (d.status, d.result?)
  depth := w.deferreds.size + 1

/-- A native value as a document. -/
def showNative (v : NativeValue) : Document :=
  v.toDocument w.scene

end World

end Isthmus
