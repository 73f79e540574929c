import Isthmus.Bridge.Channels

/-!
# Bridge/Handle — native instances attached to foreign objects

A handle is bound to at most one object, and an object carries at most one piece of native data.  An
exclusive handle refuses to be bound while its instance has another owner.
-/

namespace Isthmus.Engine

/-- Adds a native instance. -/
def createInstanceOf (i : Instance) : Engine InstanceId := do
  let w ← get
  set { w with instances := w.instances.insert i }
  return ⟨w.instances.next⟩

/-- Adds a handle that is not bound yet. -/
def createHandle (cls : ClassKey) (inst : InstanceId) (ownership : Ownership) : Engine HandleId := do
  let w ← get
  set { w with handles := w.handles.insert { cls, inst, ownership } }
  return ⟨w.handles.next⟩

/-- Changes a handle. -/
def modifyHandle (id : HandleId) (f : Handle → Handle) : Engine Unit :=
  modify fun w => { w with handles := w.handles.modify id.index f }

/-- Attaches native data to an object that has none. -/
def wrap (cx : ContextId) (id : ObjectId) (data : Attachment) : Engine Unit := do
  checkOwned cx id
  if (← object id).attachment.isSome then abort "object is already wrapped"
  modifyObject id ({ · with attachment := some data })

/-- Binds a handle to an object. -/
def bindHandle (cx : ContextId) (id : HandleId) (obj : ObjectId) : Engine Unit := do
  let w ← get
  let some h := w.handle? id | abort "handle is gone"
  let name := h.cls.name
  if h.state ≠ .unbound then abort (name ++ " handle bound twice")
  let owners := w.count (.inst h.inst)
  if h.ownership = .exclusive ∧ owners ≠ 1 then
    abort ("exclusive " ++ name ++ " handle adopted an instance with " ++ toString (owners - 1) ++
      " other owner(s)")
  if (← object obj).attachment.isSome then
    abort (name ++ " handle bound to an object that is already wrapped")
  wrap cx obj (.handle id)
  modifyHandle id ({ · with state := .bound })

/-- The handle attached to an object of the context. -/
def handleOf (cx : ContextId) (id : ObjectId) : Engine (Option (HandleId × Handle)) := do
  checkOwned cx id
  match (← object id).attachment with
  | some (.handle h) => return ((← get).handle? h).map fun handle => (h, handle)
  | _ => return none

/-- The instance of a handle as a native value. -/
def nativeValue (h : Handle) : NativeValue :=
  .object h.cls.typeId h.inst

end Isthmus.Engine
