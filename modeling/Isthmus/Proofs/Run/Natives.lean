import Isthmus.Proofs.Run.Bridges
import Isthmus.Proofs.Run.Passive

/-!
# Proofs/Run/Natives — what native code does to the world

Building native values adds to what native code has in stock and touches nothing else (`World.Stocked`).
Running native members conserves every relation that is `Tame`, so also finer ones than those that say how
deliveries go.  One of them is `World.KeepsBridges`: whatever native code does, the bridges stay where they
are.
-/

namespace Isthmus

/-! ## Native values -/

/-- Buffers, instances and event sources may be others, but nothing else is. -/
def World.Stocked (w w' : World) : Prop :=
  ∃ storages instances sources, w' = { w with storages, instances, sources }

/-- A reflexive and transitive relation for which buffers, instances and event sources do not matter. -/
class Stocks (R : World → World → Prop) : Prop extends IsPreorder World R where
  stocked {w w' : World} : w.Stocked w' → R w w'

instance : Stocks World.Stocked where
  refl w := ⟨w.storages, w.instances, w.sources, rfl⟩
  trans := by
    rintro w _ _ ⟨_, _, _, rfl⟩ ⟨storages, instances, sources, rfl⟩
    exact ⟨storages, instances, sources, rfl⟩
  stocked h := h

instance {R : World → World → Prop} [Tame R] : Stocks R where
  stocked := by
    rintro w _ ⟨_, _, _, rfl⟩
    exact Tame.quiet (.of_eq rfl rfl)

/-- A reflexive and transitive relation that holds for making buffers, instances and event sources. -/
class Makes (R : World → World → Prop) : Prop extends IsPreorder World R where
  createBuffer (bytes : Array UInt8) (label : Option String) :
    Conserves R (Engine.createBuffer bytes label)
  createSource : Conserves R Engine.createSource
  createInstanceOf (i : Instance) : Conserves R (Engine.createInstanceOf i)

instance {R : World → World → Prop} [Stocks R] : Makes R where
  createBuffer _ _ _ := Stocks.stocked ⟨_, _, _, rfl⟩
  createSource _ := Stocks.stocked ⟨_, _, _, rfl⟩
  createInstanceOf _ _ := Stocks.stocked ⟨_, _, _, rfl⟩

/-- The instance is one of the class. -/
def World.IsOf (w : World) (cls : ClassKey) (id : InstanceId) : Prop :=
  (w.instance? id).bind (·.class?) = some cls

namespace Engine

variable {w w' : World} {cls : ClassKey} {inst : InstanceId}

/-- An instance is made of the class that it belongs to. -/
theorem isOf_createInstanceOf {i : Instance} (h : (createInstanceOf i).run w = .ok inst w')
    (hc : i.class? = some cls) : w'.IsOf cls inst := by
  cases h
  refine Option.bind_eq_some_iff.2 ⟨i, ?_, hc⟩
  rw [World.instance?, Store.get?_insert, if_pos rfl]

/-- The instance that a class makes by default is one of the class. -/
theorem isOf_createDefault (h : (createDefault cls).run w = .ok inst w') : w'.IsOf cls inst := by
  cases cls with
  | «matrix» =>
    obtain ⟨_, _, -, h⟩ := bind_ok h
    exact isOf_createInstanceOf h rfl
  | ticker =>
    obtain ⟨_, _, -, h⟩ := bind_ok h
    exact isOf_createInstanceOf h rfl
  | puppet i =>
    obtain ⟨_, _, -, h⟩ := bind_ok h
    obtain ⟨_, _, -, h⟩ := bind_ok h
    obtain ⟨_, _, -, h⟩ := bind_ok h
    exact isOf_createInstanceOf h rfl
  | _ => exact isOf_createInstanceOf h rfl

end Engine

namespace Conserves

section

variable {R : World → World → Prop} [IsPreorder World R]

/-- The source of an instance is only looked up. -/
theorem sourceOf {id} : Conserves R (Engine.sourceOf id) := by
  refine bind get fun w => ?_
  split
  · exact pure
  · exact pure
  · exact pure

/-- A property of an instance is read without a change. -/
theorem readMember {id index} : Conserves R (Engine.readMember id index) := by
  refine bind get fun w => ?_
  split
  all_goals exact pure

end

section

variable {R : World → World → Prop} [Makes R]

theorem createBuffer {bytes label} : Conserves R (Engine.createBuffer bytes label) :=
  Makes.createBuffer bytes label

theorem createSource : Conserves R Engine.createSource :=
  Makes.createSource

theorem createInstanceOf {i} : Conserves R (Engine.createInstanceOf i) :=
  Makes.createInstanceOf i

theorem matrixValue {m} : Conserves R (Engine.matrixValue m) :=
  bind createInstanceOf fun _ => pure

mutual

/-- A recipe makes buffers, deferreds and matrices, and looks up the rest. -/
theorem build {r} : Conserves R (Engine.build r) := by
  cases r with
  | buffer bytes => exact bind createBuffer fun _ => pure
  | list items => exact bind buildAll fun _ => pure
  | variant content => exact bind build fun _ => pure
  | stranger type => exact bind createInstanceOf fun _ => pure
  | matrix rows cols channels samples =>
    refine bind createBuffer fun b => ?_
    split
    · exact bind matrixValue fun _ => pure
    · exact pure
  | deferred name => exact bind get fun _ => pure
  | named name => exact bind get fun _ => pure
  | _ => exact pure

/-- Recipes are followed in order. -/
theorem buildAll {rs} : Conserves R (Engine.buildAll rs) := by
  cases rs with
  | nil => exact pure
  | cons r rest => exact bind build fun _ => bind buildAll fun _ => pure

end

/-- A new instance starts with what its class gives it. -/
theorem createDefault {cls} : Conserves R (Engine.createDefault cls) := by
  cases cls with
  | matrix => exact bind createBuffer fun _ => createInstanceOf
  | ticker => exact bind createSource fun _ => createInstanceOf
  | puppet i =>
    refine bind get fun w => bind (mapM fun slot => ?_) fun _ => bind createSource fun _ =>
      createInstanceOf
    split
    · exact build
    · exact pure
  | _ => exact createInstanceOf

end

end Conserves

/-! ## Native members -/

/-- A reflexive and transitive relation that holds for each thing that native code does of itself. -/
class NativeWork (R : World → World → Prop) : Prop extends Holds R, Makes R where
  createDeferred : Conserves R Engine.createDeferred
  spawn (job : Job) : Conserves R (Engine.spawn job)
  fire (id : ChannelsId) (event : Nat) (args : List NativeValue) :
    Conserves R (Engine.operate (·.fire id event args))
  /-- An instance changes, and stays one of its class. -/
  updateInstance {w : World} {id : InstanceId} {i after : Instance} (hi : w.instance? id = some i)
    (before : Instance) (hc : after.class? = i.class?) :
    R w ((Engine.updateInstance id before after).after w)

instance {R : World → World → Prop} [Tame R] : NativeWork R where
  createDeferred := .update (f := World.newDeferred) Tame.newDeferred fun _ => .pure
  spawn _ := .quiet fun _ => .of_eq rfl rfl
  fire _ _ _ := .operate fun w => Tame.fire w _ _ _
  updateInstance {w id i after} _ before _ := by
    have hall : Conserves R (Engine.updateInstance id before after) :=
      .bind (.quiet fun _ => .of_eq rfl rfl) fun _ => .letGo
    exact hall w

namespace Conserves

variable {R : World → World → Prop} [NativeWork R] {α : Type}

theorem createDeferred : Conserves R Engine.createDeferred :=
  NativeWork.createDeferred

theorem spawn {job} : Conserves R (Engine.spawn job) :=
  NativeWork.spawn job

/-- An event of a source is fired for each connection. -/
theorem emit {source event args} : Conserves R (Engine.emit source event args) := by
  refine bind get fun w => ?_
  split
  · exact forM fun id => NativeWork.fire id event args
  · exact pure

/-- A failure of native code is told to its caller. -/
theorem settleFault {r : Except Fault α} : Conserves R (Engine.settleFault r) := by
  unfold Engine.settleFault
  split
  · exact pure
  · exact pure
  · exact abort

/-- An instance changes, and stays one of its class; then something else is done. -/
theorem updateInstance_then {β : Type} {w : World} {id : InstanceId} {i before after : Instance}
    (hi : w.instance? id = some i) (hc : after.class? = i.class?) {m : Engine β} (hm : Conserves R m) :
    R w ((do Engine.updateInstance id before after; m).after w) :=
  step_now (NativeWork.updateInstance hi before hc) fun _ w' _ => hm w'

/-- What comes after a fault was settled starts from the same world. -/
theorem settleFault_then {β : Type} {w : World} {r : Except Fault α}
    {f : Except NativeError α → Engine β} (hf : ∀ x, R w ((f x).after w)) :
    R w ((Engine.settleFault r >>= f).after w) := by
  refine step_now (settleFault w) fun x w' hr => ?_
  obtain (_ | _) | _ := r <;> cases hr
  · exact hf _
  · exact hf _

/-- A request for an image makes a deferred, and submits the work. -/
theorem fulfil {request} : Conserves R (Engine.fulfil request) := by
  cases request with
  | create m => exact bind createBuffer fun _ => matrixValue
  | schedule work => exact bind createDeferred fun _ => bind spawn fun _ => pure

/-- A puppet does what it is told. -/
theorem perform {index args behaviour} : Conserves R (Engine.perform index args behaviour) := by
  unfold Engine.perform
  split
  · refine bind build fun v => ?_
    split
    · exact pure
    · exact pure
  · exact pure
  · exact settleFault
  · exact pure
  · refine bind createDeferred fun d => ?_
    split
    · exact bind spawn fun _ => pure
    · exact bind build fun _ => bind spawn fun _ => pure
  · exact pure

/-- A member changes its own instance at most. -/
theorem invoke {id index args} : Conserves R (Engine.invoke id index args) := by
  refine now fun w => ?_
  dsimp only
  split
  · next c hi => exact updateInstance_then hi (by rfl) settleFault
  · exact settleFault w
  · refine bind settleFault (fun r => ?_) w
    split
    · exact bind fulfil fun _ => pure
    · exact pure
  · next value source hi =>
    refine settleFault_then fun r => ?_
    split
    · exact updateInstance_then hi (by rfl) (bind emit fun _ => pure)
    · exact bind spawn (fun _ => pure) w
    · exact pure w
  · next i slots source hi =>
    split
    · exact bind emit (fun _ => pure) w
    · exact bind spawn (fun _ => pure) w
    · refine settleFault_then fun r => ?_
      split
      · exact updateInstance_then hi (by rfl) pure
      · exact pure w
    · exact pure w
    · exact perform w
    · exact pure w
  · exact pure w

/-- A static member changes none. -/
theorem invokeStatic {cls index args} : Conserves R (Engine.invokeStatic cls index args) := by
  unfold Engine.invokeStatic
  split
  · exact settleFault
  · refine bind get fun w => ?_
    split
    · exact perform
    · exact pure
  · exact pure

/-- A property is written to its own instance. -/
theorem writeMember {id index v} : Conserves R (Engine.writeMember id index v) := by
  refine now fun w => ?_
  split
  · next c hi =>
    split
    · exact updateInstance_then hi (by rfl) pure
    · exact pure w
  · next i slots source hi =>
    split
    · exact updateInstance_then hi (by rfl) pure
    · exact pure w
  · exact pure w

end Conserves

/-! ## Bridges -/

namespace World

variable {w w' : World}

/-- Every context keeps its bridge, with the registry that it has. -/
def KeepsBridges (w w' : World) : Prop :=
  ∀ cx id i, w.bridge? cx = some (id, i) →
    ∃ i', w'.bridge? cx = some (id, i') ∧ i'.registry = i.registry

theorem KeepsBridges.refl (w : World) : KeepsBridges w w :=
  fun _ _ i hb => ⟨i, hb, rfl⟩

/-- Bridges that are kept stay kept. -/
theorem KeepsBridges.trans {w'' : World} (h : KeepsBridges w w') (h' : KeepsBridges w' w'') :
    KeepsBridges w w'' := by
  intro cx id i hb
  obtain ⟨i', hb', hr⟩ := h cx id i hb
  obtain ⟨i'', hb'', hr'⟩ := h' cx id i' hb'
  exact ⟨i'', hb'', hr'.trans hr⟩

/-- Who leaves contexts and installations alone keeps the bridges. -/
theorem KeepsBridges.of_eq (hd : ∀ cx, w'.data? cx = w.data? cx)
    (hi : w'.installations = w.installations) : KeepsBridges w w' :=
  fun cx _ i hb => ⟨i, (bridge?_congr (hd cx) hi).trans hb, rfl⟩

/-- The installation of a context has an owner, so it does not go. -/
theorem KeepsBridges.destroy {r : Ref} (h : r ∉ w.references) : KeepsBridges w (w.destroy r).1 := by
  intro cx id i hb
  obtain ⟨hd, hi⟩ := bridge?_eq_some.1 hb
  have hd' : (w.destroy r).1.data? cx = some (.bridge id) := (w.destroys r).carries.1.trans hd
  obtain ⟨i', hi', ha⟩ | ⟨hr, -⟩ := (Move.destroy r h).installation hi
  · refine ⟨i', bridge?_eq_some.2 ⟨hd', hi'⟩, ?_⟩
    cases ha with
    | _ => rfl
  · exact absurd (mem_references_of_data? hd) hr

end World

instance : IsPreorder World World.KeepsBridges where
  refl := .refl
  trans _ _ _ := .trans

instance : Tame World.KeepsBridges where
  quiet h := .of_eq h.data? h.installations
  newDeferred _ := .of_eq (fun _ => rfl) rfl
  fire := World.fire_of_posts fun hp => .of_eq (fun _ => hp.carries.1) hp.installations
  destroy := .destroy

end Isthmus
