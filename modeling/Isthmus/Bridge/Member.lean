import Isthmus.Bridge.FromForeign
import Isthmus.Bridge.ToForeign

/-!
# Bridge/Member — calling native members from foreign code

Arguments are counted, then all probed, then all converted; only then does native code run.  What native
code gives back is converted to the declared type on its way to the foreign side.
-/

namespace Isthmus.Engine

variable (run : Runner)

/-- The position and expected type of the first argument that its probe refuses. -/
def firstRefused (cx : ContextId) (registry : Registry) :
    Nat → List (ForeignValue × TypeId) → Engine (Option (Nat × TypeId))
  | _, [] => return none
  | index, (v, target) :: rest => do
    if ← canFromForeign cx registry v target then firstRefused cx registry (index + 1) rest
    else return some (index, target)

/-- Converts arguments, up to the first that does not convert: its position and expected type. -/
def convertArguments (cx : ContextId) (registry : Registry) :
    Nat → List (ForeignValue × TypeId) → Engine (Except (Nat × TypeId) (List NativeValue))
  | _, [] => return .ok []
  | index, (v, target) :: rest => do
    match ← fromForeign cx registry v target with
    | .error _ => return .error (index, target)
    | .ok first =>
      match ← convertArguments cx registry (index + 1) rest with
      | .error e => return .error e
      | .ok others => return .ok (first :: others)

/-- The native arguments for a method. -/
def arguments (cx : ContextId) (m : MethodDescriptor) (args : List ForeignValue) :
    Engine (List NativeValue) := do
  if args.length ≠ m.arity then (BridgeError.arityMismatch m.name m.arity args.length).raise cx
  let registry ← registry cx
  let refused : Nat × TypeId → BridgeError := fun (index, target) =>
    .argumentConversion m.name index (ClassKey.typeName target)
  let pairs := args.zip m.parameters
  if let some r ← firstRefused cx registry 0 pairs then (refused r).raise cx
  match ← convertArguments cx registry 0 pairs with
  | .ok natives => return natives
  | .error r => (refused r).raise cx

/-- Converts the result of a member to its declared type and to the foreign side. -/
def resultToForeign (cx : ContextId) (member : String) (declared : TypeId) (v : NativeValue) :
    Engine ForeignValue := do
  if declared = .void then return .undefined
  let failed := BridgeError.resultConversion member (ClassKey.typeName v.typeId)
  match v.convert declared with
  | none => failed.raise cx
  | some v =>
    match ← toForeign run cx (← registry cx) v with
    | .ok foreign => return foreign
    | .error _ => failed.raise cx

/-- Gives the foreign side what a method ended with. -/
def finish (cx : ContextId) (m : MethodDescriptor) : Outcome → Engine ForeignValue
  | .ok v => resultToForeign run cx m.name m.returns v
  | .error e => (BridgeError.invocation m.name e).raise cx

/-- The handle of the receiver, which must be of the class. -/
def receiver (cx : ContextId) (cls : ClassKey) (info : CallInfo) : Engine Handle := do
  let name := ((← get).plans.descriptor cls).name
  let incompatible := name ++ " member called on an incompatible receiver"
  match info.receiver with
  | .object id =>
    match ← handleOf cx id with
    | some (_, h) => if h.cls = cls then return h else abort incompatible
    | none => abort incompatible
  | _ => abort incompatible

/-- The method that a function stands for. -/
def methodAt (cls : ClassKey) (index : Nat) : Engine MethodDescriptor := do
  let d := (← get).plans.descriptor cls
  match d.methods[index]? with
  | some m => return m
  | none => abort (d.name ++ " has no method " ++ toString index)

/-- The property that an accessor stands for. -/
def propertyAt (cls : ClassKey) (index : Nat) : Engine PropertyDescriptor := do
  let d := (← get).plans.descriptor cls
  match d.properties[index]? with
  | some p => return p
  | none => abort (d.name ++ " has no property " ++ toString index)

/-- Constructs an instance for the receiver. -/
def constructMember (cx : ContextId) (cls : ClassKey) (info : CallInfo) : Engine ForeignValue := do
  let name := ((← get).plans.descriptor cls).name
  if !info.isConstructCall then (BridgeError.notConstructed name).raise cx
  match info.receiver with
  | .object this =>
    let inst ← createDefault cls
    let h ← createHandle cls inst .exclusive
    attach cx cls this h
    return .undefined
  | _ => abort (name ++ " constructed without a receiver")

/-- Calls a method. -/
def invokeMember (cx : ContextId) (cls : ClassKey) (info : CallInfo) : Engine ForeignValue := do
  let m ← methodAt cls info.data
  let h ← receiver cx cls info
  let args ← arguments cx m info.args
  finish run cx m (← invoke h.inst info.data args)

/-- Calls a static method. -/
def invokeStaticMember (cx : ContextId) (cls : ClassKey) (info : CallInfo) :
    Engine ForeignValue := do
  let m ← methodAt cls info.data
  let args ← arguments cx m info.args
  finish run cx m (← invokeStatic cls info.data args)

/-- Reads a property. -/
def getMember (cx : ContextId) (cls : ClassKey) (info : CallInfo) : Engine ForeignValue := do
  let p ← propertyAt cls info.data
  let h ← receiver cx cls info
  match ← readMember h.inst info.data with
  | some v => resultToForeign run cx p.name p.type v
  | none => (BridgeError.propertyRead p.name).raise cx

/-- Writes a property. -/
def setMember (cx : ContextId) (cls : ClassKey) (info : CallInfo) : Engine ForeignValue := do
  let p ← propertyAt cls info.data
  let h ← receiver cx cls info
  let registry ← registry cx
  if info.args.length ≠ 1 then (BridgeError.propertySetArity p.name info.args.length).raise cx
  if registry.isDynamic p.type then
    (BridgeError.dynamicProperty p.name (ClassKey.typeName p.type)).raise cx
  let refused := BridgeError.propertyConversion p.name (ClassKey.typeName p.type)
  let v := info.arg 0
  if !(← canFromForeign cx registry v p.type) then refused.raise cx
  match ← fromForeign cx registry v p.type with
  | .error _ => refused.raise cx
  | .ok native =>
    if ← writeMember h.inst info.data native then return .undefined
    else (BridgeError.writeFailed p.name).raise cx

/-- Lists the channels of an instance, or subscribes to one. -/
def onMember (cx : ContextId) (cls : ClassKey) (info : CallInfo) : Engine ForeignValue := do
  let h ← receiver cx cls info
  let w ← get
  match info.args with
  | [] =>
    let names := ((w.plans.descriptor cls).channels ClassKey.typeName).map ForeignValue.string
    return .object (← createArray cx names)
  | [.string signature, callback] =>
    if w.isFunction callback || callback.isNullish then
      let callback := if w.isFunction callback then some callback else none
      let result ← match h.channels with
        | some channels => subscribe cx channels signature callback
        | none => pure (.error (.unknownChannel signature))
      match result with
      | .ok () => return .undefined
      | .error e => e.raise cx
    else BridgeError.subscribeUsage.raise cx
  | _ => BridgeError.subscribeUsage.raise cx

/-- Runs a function of a generated class. -/
def runMember (cx : ContextId) (cls : ClassKey) (role : MemberRole) (info : CallInfo) :
    Engine ForeignValue :=
  match role with
  | .construct => constructMember cx cls info
  | .invoke => invokeMember run cx cls info
  | .invokeStatic => invokeStaticMember run cx cls info
  | .get => getMember run cx cls info
  | .set => setMember cx cls info
  | .on => onMember cx cls info

end Isthmus.Engine
