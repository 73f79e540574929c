import Isthmus.Engine.Call
import Isthmus.Engine.Member

/-!
# Bridge/Class — foreign classes for native ones

A class is generated from its descriptor when it is first needed: methods on the prototype, statics and
constants on the class, one accessor a property on every instance, and `on` where there are events.
Each generated function carries the index of its member.
-/

namespace Isthmus.Engine

variable (run : Runner)

/-! ## Plain values -/

/-- Converts a native value by a conversion that needs neither a class nor a promise.  A value of
another form than the conversion is for becomes undefined. -/
def encodePlain (cx : ContextId) (limit : Nat) (e : Encoder) (v : NativeValue) :
    Engine ForeignValue := do
  match e, v with
  | .bool, .bool b => return .bool b
  | .int, .int i => return .number (Number.ofInt32 i)
  | .double, .double d => return .number d
  | .string, .string s => return .string s
  | .buffer, .buffer b =>
    if b.bytes.size ≠ 0 ∧ b.bytes.size < limit then
      return .object (← allocate { context := cx, kind := .arrayBuffer b })
    else return .undefined
  | .length, .buffer b => return .number (Float.ofNat b.bytes.size)
  | .nil, _ => return .string "nil"
  | .refusal, _ => raiseTypeError cx "no strings"
  | _, _ => return .undefined

/-! ## Generating classes -/

/-- The definitions for the callable members of a descriptor. -/
def methodDefinitions (cls : ClassKey) (d : TypeDescriptor) : List Definition :=
  (d.methods.zipIdx.filter (!·.1.isEvent)).map fun (m, index) =>
    if m.isStatic then
      { name := m.name, member := .method (.member cls .invokeStatic) index, isStatic := true }
    else { name := m.name, member := .method (.member cls .invoke) index }

/-- The definition of `on`, where there are events. -/
def onDefinitions (cls : ClassKey) (d : TypeDescriptor) : List Definition :=
  if d.hasEvents then [{ name := "on", member := .method (.member cls .on) 0 }] else []

/-- The definition of a constant; one that does not convert breaks a contract. -/
def constantDefinition (cx : ContextId) (registry : Registry) (d : TypeDescriptor)
    (name : String) (c : Constant) : Engine Definition := do
  let v := c.toNative
  let failure (text : String) := "constant " ++ d.name ++ "." ++ name ++ ": " ++ text
  match registry.encoder? v.typeId with
  | none =>
    abort (failure (ConvertError.noConverter (ClassKey.typeName v.typeId) true).message)
  | some e =>
    match ← attempt (encodePlain cx registry.maxBufferLength e v) with
    | .ok foreign =>
      return { name, member := .value foreign, isStatic := true, readOnly := true }
    | .error (.thrown _) => abort (failure ConvertError.thrownMessage)
    | .error stop => throw stop

/-- The definitions for the properties of a descriptor. -/
def propertyDefinitions (cls : ClassKey) (d : TypeDescriptor) : List Definition :=
  d.properties.zipIdx.map fun (p, index) =>
    { name := p.name
      member := .accessor
        (if p.readable then some (.reader cls) else none)
        (if p.writable then some (.writer cls) else none) index }

/-- Generates a class. -/
def generateClass (cx : ContextId) (registry : Registry) (cls : ClassKey) : Engine ObjectId := do
  let d := (← get).plans.descriptor cls
  let constants ← d.constants.mapM fun (name, c) => constantDefinition cx registry d name c
  defineClass cx d.name (.member cls .construct) 0
    (methodDefinitions cls d ++ onDefinitions cls d ++ constants)

/-- The class on a context, generated on first use. -/
def classOf (cx : ContextId) (cls : ClassKey) : Engine ObjectId := do
  let (id, installation) ← bridge cx
  match installation.classes.find? (·.1 = cls) with
  | some (_, obj) =>
    hold [.object obj]
    return obj
  | none =>
    let obj ← generateClass cx installation.registry cls
    modifyInstallation id fun i => { i with classes := i.classes ++ [(cls, obj)] }
    return obj

/-! ## Instances -/

/-- Makes an object the foreign side of a native instance. -/
def attach (cx : ContextId) (cls : ClassKey) (obj : ObjectId) (h : HandleId) : Engine Unit := do
  let w ← get
  let d := w.plans.descriptor cls
  if d.hasEvents then
    if let some handle := w.handle? h then
      if let some source ← sourceOf handle.inst then
        let channels ← connect cx d source
        modifyHandle h ({ · with channels := some channels })
  bindHandle cx h obj
  defineAll cx obj (propertyDefinitions cls d)

/-- Gives a native instance a foreign object, without running a constructor.  The instance stays shared
with native code. -/
def wrapInstance (cx : ContextId) (cls : ClassKey) (inst : InstanceId) : Engine ObjectId := do
  let c ← classOf cx cls
  let obj ← createInstance run cx c
  let h ← createHandle cls inst .shared
  attach cx cls obj h
  return obj

/-- Converts a native value that should hold an instance of a class, which is kept meanwhile. -/
def wrapNative (cx : ContextId) (cls : ClassKey) (v : NativeValue) : Engine ForeignValue := do
  let w ← get
  match v.unwrap.asObject? with
  | some inst =>
    if ((w.instance? inst).bind (·.class?)) = some cls then
      hold [.inst inst]
      return .object (← wrapInstance run cx cls inst)
    else refuse w
  | none => refuse w
where
  refuse (w : World) : Engine ForeignValue :=
    raiseTypeError cx ("expected a " ++ (w.plans.descriptor cls).name ++ " instance, got " ++
      ClassKey.typeName v.typeId)

/-- Defines every class of the registry as a property of an object. -/
def exportClasses (cx : ContextId) (target : ObjectId) : Engine Unit := do
  let registry ← registry cx
  registry.classes.forM fun entry => do
    let cls ← classOf cx entry.key
    defineAll cx target [{ name := entry.name, member := .value (.object cls) }]

end Isthmus.Engine
