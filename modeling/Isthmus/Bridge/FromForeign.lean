import Isthmus.Bridge.Handle

/-!
# Bridge/FromForeign — foreign values on the native side

`canFromForeign` asks and `fromForeign` converts; neither changes anything.  The variant type takes any
value that has a native counterpart, the list type an array of such values, and each other type what
its conversion lets through.  Looking at the native data of another context's object is a broken
contract, which `Refusal.foreignContext` reports.
-/

namespace Isthmus

/-- Why a foreign value has no native counterpart. -/
inductive Refusal where
  | notConvertible
  /-- An object of the given context met another context. -/
  | foreignContext (owner : ContextId)
  deriving DecidableEq, Repr

namespace World

variable (w : World) (cx : ContextId)

/-- The handle attached to an object. -/
def boundHandle (id : ObjectId) : Except Refusal Handle :=
  match w.object? id with
  | none => .error .notConvertible
  | some o =>
    if o.context ≠ cx then .error (.foreignContext o.context)
    else
      match o.attachment with
      | some (.handle h) =>
        match w.handle? h with
        | some handle => .ok handle
        | none => .error .notConvertible
      | _ => .error .notConvertible

/-- The native counterpart of a number: an int where that is exact. -/
def ofNumber (n : Float) : NativeValue :=
  match Number.int32? n with
  | some i => .int i
  | none => .double n

/-- The native counterpart of a value, looking into at most `depth` arrays inside each other. -/
def inferWithin (depth : Nat) (v : ForeignValue) : Except Refusal NativeValue :=
  match depth, v with
  | _, .undefined => .ok .void
  | _, .null => .ok .void
  | _, .bool b => .ok (.bool b)
  | _, .number n => .ok (ofNumber n)
  | _, .string s => .ok (.string s)
  | 0, .object _ => .error .notConvertible
  | depth + 1, .object id =>
    match w.object? id with
    | none => .error .notConvertible
    | some o =>
      match o.kind with
      | .arrayBuffer b => .ok (.buffer b)
      | .array items => do
        return .list (← items.mapM fun item => do return (← inferWithin depth item).toVariant)
      | _ => do return Engine.nativeValue (← w.boundHandle cx id)

/-- The native counterpart of a value. -/
def infer (v : ForeignValue) : Except Refusal NativeValue :=
  w.inferWithin cx (w.objects.size + 1) v

/-- The items of an array. -/
def itemsOf (v : ForeignValue) : Option (List ForeignValue) :=
  (v.asObject?.bind w.object?).bind (·.items?)

/-- The buffer of an array buffer. -/
def bufferOf (v : ForeignValue) : Option Buffer :=
  (v.asObject?.bind w.object?).bind (·.buffer?)

/-- Answers yes, or no for a value without a counterpart. -/
def answer {α : Type} : Except Refusal α → Except Refusal Bool
  | .ok _ => .ok true
  | .error .notConvertible => .ok false
  | .error e => .error e

/-- Whether every value has a native counterpart; looks no further than the first that has none. -/
def inferAll : List ForeignValue → Except Refusal Bool
  | [] => .ok true
  | v :: rest => do if ← answer (w.infer cx v) then inferAll rest else return false

/-- The handle of a class attached to a value. -/
def handleFor (cls : ClassKey) (v : ForeignValue) : Except Refusal Handle :=
  match v with
  | .object id => do
    let h ← w.boundHandle cx id
    if h.cls = cls then .ok h else .error .notConvertible
  | _ => .error .notConvertible

/-- Whether a conversion lets a value through. -/
def probe (d : Decoder) (v : ForeignValue) : Except Refusal Bool :=
  match d with
  | .bool => .ok v.asBool?.isSome
  | .int => .ok (v.asNumber?.bind Number.int32?).isSome
  | .double => .ok v.asNumber?.isSome
  | .string => .ok v.asString?.isSome
  | .buffer => .ok (w.bufferOf v).isSome
  | .instance cls => answer (w.handleFor cx cls v)
  | .nil => .ok v.asString?.isSome

/-- Gives a value, or refuses. -/
def given {α : Type} : Option α → Except Refusal α
  | some a => .ok a
  | none => .error .notConvertible

/-- Converts a value that the probe let through. -/
def decode (d : Decoder) (v : ForeignValue) : Except Refusal NativeValue :=
  match d with
  | .bool => given (v.asBool?.map .bool)
  | .int => given ((v.asNumber?.bind Number.int32?).map .int)
  | .double => given (v.asNumber?.map .double)
  | .string => given (v.asString?.map .string)
  | .buffer => given ((w.bufferOf v).map .buffer)
  | .instance cls => do return Engine.nativeValue (← w.handleFor cx cls v)
  | .nil => if v.asString? = some "nil" then .ok .void else .error .notConvertible

/-- Whether a value converts to a type. -/
def canFromForeign (registry : Registry) (v : ForeignValue) (target : TypeId) :
    Except Refusal Bool :=
  if target = .variant then answer (w.infer cx v)
  else if target = .list then
    match w.itemsOf v with
    | some items => w.inferAll cx items
    | none => .ok false
  else
    match registry.decoder? target with
    | some d => w.probe cx d v
    | none => .ok false

/-- The result of converting a value: why it did not convert is an answer, not a refusal. -/
def converted (target : TypeId) : Except Refusal NativeValue →
    Except Refusal (Except ConvertError NativeValue)
  | .ok v => .ok (.ok v)
  | .error .notConvertible => .ok (.error (.notConvertible (ClassKey.typeName target)))
  | .error e => .error e

/-- Converts a value to a type. -/
def fromForeign (registry : Registry) (v : ForeignValue) (target : TypeId) :
    Except Refusal (Except ConvertError NativeValue) :=
  if target = .variant then converted target do return (← w.infer cx v).toVariant
  else if target = .list then
    converted target do
      let items ← given (w.itemsOf v)
      return .list (← items.mapM fun item => do return (← w.infer cx item).toVariant)
  else
    match registry.decoder? target with
    | none => .ok (.error (.noConverter (ClassKey.typeName target) false))
    | some d =>
      converted target do
        if ← w.probe cx d v then w.decode cx d v else .error .notConvertible

end World

namespace Engine

/-- Gives the result of looking at foreign values, or aborts where contexts met. -/
def look {α : Type} (cx : ContextId) : Except Refusal α → Engine α
  | .ok a => return a
  | .error (.foreignContext owner) =>
    abort ("object from context #" ++ toString owner.index ++ " used in context #" ++
      toString cx.index)
  | .error .notConvertible => abort "value cannot be converted"

/-- Whether a foreign value converts to a type. -/
def canFromForeign (cx : ContextId) (registry : Registry) (v : ForeignValue) (target : TypeId) :
    Engine Bool := do
  look cx ((← get).canFromForeign cx registry v target)

/-- Converts a foreign value to a type. -/
def fromForeign (cx : ContextId) (registry : Registry) (v : ForeignValue) (target : TypeId) :
    Engine (Except ConvertError NativeValue) := do
  look cx ((← get).fromForeign cx registry v target)

end Engine

end Isthmus
