import Isthmus.Engine.Basic

/-!
# Bridge/Installation — the bridge on a context

Installing gives a context a fresh installation and lets go of the earlier one.  Promises that wait and
callbacks that are subscribed are kept under slots, which an installation counts up from one.
-/

namespace Isthmus.Engine

/-- Installs the bridge on a context. -/
def install (cx : ContextId) (registry : Registry) : Engine Unit := do
  let c ← context cx
  modify (·.install cx registry)
  if let some (.bridge old) := c.data then letGo [.installation old]

/-- The current installation of a context; without one the caller broke a contract. -/
def bridge (cx : ContextId) : Engine (InstallationId × Installation) := do
  match (← get).bridge? cx with
  | some b => return b
  | none => abort ("bridge is not installed on context #" ++ toString cx.index)

/-- The registry that is current on a context. -/
def registry (cx : ContextId) : Engine Registry :=
  return (← bridge cx).2.registry

/-- Changes an installation. -/
def modifyInstallation (id : InstallationId) (f : Installation → Installation) : Engine Unit :=
  modify fun w => { w with installations := w.installations.modify id.index f }

/-- Takes the promise to settle out of its slot; without one a contract was broken. -/
def unpark (cx : ContextId) (slot : Nat) : Engine (Registry × ObjectId) := do
  let (id, installation) ← bridge cx
  hold [.installation id]
  let found := (← get).parked? id slot
  hold (refsOf (fun promise => [.object promise]) found)
  modify (·.unpark cx id slot)
  match found with
  | some promise => return (installation.registry, promise)
  | none => abort ("no pending foreign future in slot " ++ toString slot)

/-- The callback in a slot of an installation, while its subscription is wanted. -/
def callback? (id : InstallationId) (slot : Nat) : Engine (Option ForeignValue) := do
  let w ← get
  let some i := w.installation? id | return none
  if !w.isSubscribed ⟨id, slot⟩ then return none
  return (i.subscriptions.find? (·.1 = slot)).map (·.2)

end Isthmus.Engine
