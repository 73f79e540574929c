import Isthmus.Engine.Basic
import Isthmus.Native.Error

/-!
# Bridge/Error — what the bridge tells its callers

A `BridgeError` is a mistake of foreign code and becomes a foreign error; a `ConvertError` says why a
value did not convert.
-/

namespace Isthmus

/-- A mistake of foreign code. -/
inductive BridgeError where
  | arityMismatch (method : String) (expected got : Nat)
  | argumentConversion (method : String) (index : Nat) (expected : String)
  | resultConversion (member typeName : String)
  | propertyRead (property : String)
  | propertySetArity (property : String) (got : Nat)
  | dynamicProperty (property typeName : String)
  | propertyConversion (property expected : String)
  | writeFailed (property : String)
  | invocation (method : String) (cause : NativeError)
  | unknownChannel (signature : String)
  | subscribeUsage
  | notConstructed (name : String)
  deriving DecidableEq, Repr

namespace BridgeError

/-- The name of the mistake. -/
def kind : BridgeError → String
  | arityMismatch .. => "ArityMismatch"
  | argumentConversion .. => "ArgumentConversion"
  | resultConversion .. => "ResultConversion"
  | propertyRead _ => "PropertyRead"
  | propertySetArity .. => "PropertySetArity"
  | dynamicProperty .. => "DynamicProperty"
  | propertyConversion .. => "PropertyConversion"
  | writeFailed _ => "WriteFailed"
  | invocation .. => "Invocation"
  | unknownChannel _ => "UnknownChannel"
  | subscribeUsage => "SubscribeUsage"
  | notConstructed _ => "NotConstructed"

/-- The text of the mistake. -/
def message : BridgeError → String
  | arityMismatch method expected got =>
    method ++ ": expected " ++ toString expected ++ " argument(s), got " ++ toString got
  | argumentConversion method index expected =>
    method ++ ": argument " ++ toString index ++ " cannot be converted to " ++ expected
  | resultConversion member typeName =>
    member ++ ": result of type " ++ typeName ++ " cannot be converted to a foreign value"
  | propertyRead property => "failed to read property " ++ property
  | propertySetArity property got =>
    "setting " ++ property ++ " takes exactly one value, got " ++ toString got
  | dynamicProperty property typeName =>
    "property " ++ property ++ " has dynamic type " ++ typeName ++ " and cannot be assigned"
  | propertyConversion property expected =>
    "value for " ++ property ++ " cannot be converted to " ++ expected
  | writeFailed property => "failed to write property " ++ property
  | invocation method cause => method ++ ": " ++ cause.message
  | unknownChannel signature => "unknown event channel: " ++ signature
  | subscribeUsage =>
    "usage: on() lists channels, on(signature, callback | null | undefined) subscribes"
  | notConstructed name => "class constructor " ++ name ++ " cannot be invoked without 'new'"

/-- The name of the foreign error that stands for the mistake. -/
def errorName : BridgeError → String
  | subscribeUsage | notConstructed _ => "TypeError"
  | _ => "Error"

/-- Throws the foreign error that stands for the mistake. -/
def raise {α : Type} (cx : ContextId) (e : BridgeError) : Engine α := do
  Engine.raise (.object (← Engine.createError cx e.errorName e.message))

end BridgeError

/-- Why a value did not convert. -/
inductive ConvertError where
  /-- The registry has no conversion for the type in this direction. -/
  | noConverter (typeName : String) (toForeign : Bool)
  /-- The value is not one of the type. -/
  | notConvertible (typeName : String)
  deriving DecidableEq, Repr

namespace ConvertError

/-- The name of the cause. -/
def kind : ConvertError → String
  | noConverter .. => "NoConverter"
  | notConvertible _ => "NotConvertible"

/-- The text of the cause. -/
def message : ConvertError → String
  | noConverter typeName toForeign =>
    "no " ++ (if toForeign then "native-to-foreign" else "foreign-to-native") ++
      " converter for type " ++ typeName
  | notConvertible typeName => "value cannot be converted to " ++ typeName

/-- The text for a conversion that threw. -/
def thrownMessage : String :=
  "conversion threw"

end ConvertError

end Isthmus
