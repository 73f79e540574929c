import Isthmus.Bridge.Class
import Isthmus.Engine.Promise

/-!
# Bridge/ToForeign — native values on the foreign side

Variants and lists convert through what they hold, deferreds become promises, and instances of classes
become objects that share them.  `canToForeign` asks whether every part has a conversion.
-/

namespace Isthmus

mutual

/-- Every part of the value has a conversion. -/
def Registry.canToForeign (r : Registry) : NativeValue → Bool
  | .variant content => r.canToForeign content
  | .list items => r.canAllToForeign items
  | v => (r.encoder? v.typeId).isSome

/-- Every part of every item has a conversion. -/
def Registry.canAllToForeign (r : Registry) : List NativeValue → Bool
  | [] => true
  | v :: rest => r.canToForeign v && r.canAllToForeign rest

end

namespace Engine

variable (run : Runner)

/-- Gives a deferred a promise, which is settled through the loop once the deferred is complete. -/
def promiseFor (cx : ContextId) (d : DeferredId) : Engine ObjectId := do
  let (home, installation) ← bridge cx
  let w ← get
  let some cell := w.deferred? d | abort "deferred is gone"
  let promise : ObjectId := ⟨w.objects.next⟩
  hold [.object promise]
  operate (·.promise cx home installation.nextSlot d cell)
  return promise

/-- Converts a value that is neither a variant nor a list. -/
def encode (cx : ContextId) (limit : Nat) (e : Encoder) (v : NativeValue) : Engine ForeignValue := do
  match e with
  | .deferred =>
    match v.asDeferred? with
    | some d => return .object (← promiseFor cx d)
    | none =>
      raiseTypeError cx ("expected a deferred value, got " ++ ClassKey.typeName v.typeId)
  | .instance cls => wrapNative run cx cls v
  | _ => encodePlain cx limit e v

mutual

/-- Converts a native value; a conversion that throws stops with the throw. -/
def toForeign (cx : ContextId) (registry : Registry) :
    NativeValue → Engine (Except ConvertError ForeignValue)
  | .variant content => toForeign cx registry content
  | .list items => do
    match ← allToForeign cx registry items with
    | .ok values => return .ok (.object (← createArray cx values))
    | .error e => return .error e
  | v => do
    match registry.encoder? v.typeId with
    | some e => return .ok (← encode run cx registry.maxBufferLength e v)
    | none => return .error (.noConverter (ClassKey.typeName v.typeId) true)

/-- Converts values one after the other, up to the first that does not convert. -/
def allToForeign (cx : ContextId) (registry : Registry) :
    List NativeValue → Engine (Except ConvertError (List ForeignValue))
  | [] => return .ok []
  | v :: rest => do
    match ← toForeign cx registry v with
    | .error e => return .error e
    | .ok first =>
      match ← allToForeign cx registry rest with
      | .error e => return .error e
      | .ok others => return .ok (first :: others)

end

end Engine

end Isthmus
