import Isthmus.World.References
import Isthmus.Text.Quoted

/-!
# World/Describe — foreign values for readers

`describe?` is the text that foreign code would show, `debug?` tells strings from other values, and
`typeOf` names the type.  No foreign code runs for them.  Arrays and errors are described through what
they hold; `none` stands for an error that holds itself.
-/

namespace Isthmus.World

variable (w : World)

/-- The value is a function. -/
def isFunction (v : ForeignValue) : Bool :=
  ((v.asObject?.bind w.object?).map (·.isFunction)).getD false

/-- The name of the type of a value. -/
def typeOf (v : ForeignValue) : String :=
  match v with
  | .undefined => "undefined"
  | .null => "object"
  | .bool _ => "boolean"
  | .number _ => "number"
  | .string _ => "string"
  | .object _ => if w.isFunction v then "function" else "object"

/-- The text for an object that is described by its kind alone. -/
def kindText (kind : ObjectKind) : String :=
  match kind with
  | .ordinary => "[object Object]"
  | .array _ => "[]"
  | .function name .. => "[Function: " ++ name ++ "]"
  | .arrayBuffer b => "ArrayBuffer(" ++ toString b.bytes.size ++ ")"
  | .promise state => "Promise \x7b " ++ state.label ++ " \x7d"
  | .error => "[Error]"

/-- What an error shows under a name. -/
def errorField (o : Object) (name : String) : ForeignValue :=
  match o.own? name with
  | some (.data v _ _) => v
  | _ => .string ""

/-- The text of a value, looking into at most `depth` objects inside each other. -/
def describeWithin (depth : Nat) (v : ForeignValue) : Option String :=
  match depth, v with
  | _, .undefined => some "undefined"
  | _, .null => some "null"
  | _, .bool b => some (if b then "true" else "false")
  | _, .number n => some (numberText n)
  | _, .string s => some s
  | 0, .object _ => none
  | depth + 1, .object id =>
    match w.object? id with
    | none => none
    | some o =>
      match o.kind with
      | .error => do
        return (← describeWithin depth (errorField o "name")) ++ ": " ++
          (← describeWithin depth (errorField o "message"))
      | .array items => do
        return ",".intercalate (← items.mapM (describeWithin depth))
      | kind => some (kindText kind)

/-- The text of a value. -/
def describe? (v : ForeignValue) : Option String :=
  w.describeWithin (w.objects.size + 1) v

/-- The text of a value with strings quoted, looking into at most `depth` arrays inside each other. -/
def debugWithin (depth : Nat) (v : ForeignValue) : Option String :=
  match depth, v with
  | _, .undefined => some "undefined"
  | _, .null => some "null"
  | _, .bool b => some (if b then "true" else "false")
  | _, .number n => some (Number.plain n)
  | _, .string s => some (Text.quoted s)
  | 0, .object _ => none
  | depth + 1, .object id =>
    match w.object? id with
    | none => none
    | some o =>
      match o.kind with
      | .array items => do
        return "[" ++ ", ".intercalate (← items.mapM (debugWithin depth)) ++ "]"
      | kind => some (kindText kind)

/-- The text of a value with strings quoted. -/
def debug? (v : ForeignValue) : Option String :=
  w.debugWithin (w.objects.size + 1) v

end Isthmus.World
