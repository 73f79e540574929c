import Isthmus.Document.Basic
import Isthmus.Library.Matrix
import Isthmus.Native.Deferred
import Isthmus.Number.Shortest
import Isthmus.Text.Hex
import Isthmus.Text.Quoted

/-!
# Native/Show — native values for readers

A value is shown together with what it refers to: instances of matrices by their pixels, deferreds by
their result.  A `Scene` says what the references lead to.
-/

namespace Isthmus

/-- A matrix as a document. -/
def Matrix.document (m : Matrix) : Document :=
  .record [("rows", .nat m.rows), ("cols", .nat m.cols), ("channels", .nat m.channels),
    ("samples", .text (Text.hexBytes m.data.bytes))]

/-- What native values refer to. -/
structure Scene where
  nameOf : TypeId → String
  /-- The matrix that an instance is. -/
  matrix? : InstanceId → Option Matrix
  /-- The status of a deferred, and its result once there is one. -/
  deferred? : DeferredId → Option (DeferredStatus × Option NativeValue)
  /-- Deferreds lie at most this deep inside each other. -/
  depth : Nat

namespace NativeValue

mutual

/-- A native value, looking into at most `depth` deferreds inside each other. -/
def showWithin (scene : Scene) (depth : Nat) (v : NativeValue) : Document :=
  match v with
  | void => .list [.text "void"]
  | bool b => .list [.text "bool", .bool b]
  | int i => .list [.text "int", .int i.toInt]
  | double d => .list [.text "double", .double d]
  | string s => .list [.text "string", .text s]
  | buffer b => .list [.text "buffer", .text (Text.hexBytes b.bytes)]
  | list items => .list [.text "list", .list (showAllWithin scene depth items)]
  | variant content => .list [.text "variant", showWithin scene depth content]
  | object type inst =>
    let head := [Document.text "object", .text (scene.nameOf type)]
    match scene.matrix? inst with
    | some m => .list (head ++ [m.document])
    | none => .list head
  | deferred id =>
    match scene.deferred? id with
    | none => .null
    | some (status, result) =>
      let head := [Document.text "deferred", .text status.name]
      match result with
      | none => .list head
      | some v =>
        if _ : 0 < depth then .list (head ++ [showWithin scene (depth - 1) v]) else .list head
termination_by (depth, sizeOf v)

/-- Native values, one after the other. -/
def showAllWithin (scene : Scene) (depth : Nat) (vs : List NativeValue) : List Document :=
  match vs with
  | [] => []
  | v :: rest => showWithin scene depth v :: showAllWithin scene depth rest
termination_by (depth, sizeOf vs)

end

/-- A native value as a document. -/
def toDocument (scene : Scene) (v : NativeValue) : Document :=
  v.showWithin scene scene.depth

mutual

/-- The text of a native value. -/
def debug (scene : Scene) : NativeValue → String
  | void => "void"
  | bool b => if b then "true" else "false"
  | int i => toString i.toInt
  | double d => Number.plain d
  | string s => Text.quoted s
  | buffer b => b.debug
  | list items => "[" ++ ", ".intercalate (debugAll scene items) ++ "]"
  | variant content => "variant(" ++ debug scene content ++ ")"
  | object type _ => "<" ++ scene.nameOf type ++ ">"
  | deferred id =>
    "deferred(" ++ ((scene.deferred? id).map (·.1.name)).getD "" ++ ")"

/-- The texts of native values. -/
def debugAll (scene : Scene) : List NativeValue → List String
  | [] => []
  | v :: rest => debug scene v :: debugAll scene rest

end

end NativeValue

end Isthmus
