import Isthmus.Proofs.Run.Definitions
import Isthmus.Proofs.Run.Natives

/-!
# Proofs/Run/Actions — what actions do to the world

All that foreign and native code can do to objects, classes, instances, channels and deferreds conserves
every discipline.  The code of getters and setters takes part in this (`Answers`); code that a script wrote
does not, since it may deliver.
-/

namespace Isthmus

/-- Getters and setters conserve the relation. -/
structure Answers (R : World → World → Prop) (run : Runner) : Prop where
  call : ∀ {cx} {a : Accessor} {info}, Conserves R (run.call cx a.callback info)

/-! ## What actions are made of -/

/-- An object changes, but stays what it is. -/
theorem Conserves.modifyObject {R : World → World → Prop} [Tame R] {id : ObjectId} {f : Object → Object}
    (hf : ∀ o, (f o).context = o.context ∧ (f o).kind = o.kind) :
    Conserves R (Engine.modifyObject id f) :=
  .quiet fun w => .of_frame (.modify w.objects id fun o _ => ⟨(hf o).1, .inl (hf o).2⟩) rfl

section

variable {R : World → World → Prop} [IsPreorder World R] {cx : ContextId} {id : HandleId} {obj : ObjectId}

/-- Binding an object to data changes one object and what is owned, nothing else. -/
theorem Conserves.wrapWith {data}
    (h : Conserves R (Engine.modifyObject obj ({ · with attachment := some data }))) :
    Conserves R (Engine.wrap cx obj data) :=
  .bind .checkOwned fun _ => .bind .object fun _ => .check .abort fun _ => h

/-- A handle is bound to an object after some checks. -/
theorem Conserves.bindHandleWith (hwrap : Conserves R (Engine.wrap cx obj (.handle id)))
    (hmark : Conserves R (Engine.modifyHandle id ({ · with state := .bound }))) :
    Conserves R (Engine.bindHandle cx id obj) := by
  refine .bind .get fun w => ?_
  split
  · exact .check .abort fun _ => .check .abort fun _ => .bind .object fun _ => .check .abort fun _ =>
      .bind hwrap fun _ => hmark
  · exact .abort

/-- A handle that is attached is given channels first, if its instance has any to give. -/
theorem Conserves.attachWith {cls} (hconnect : ∀ d source, Conserves R (Engine.connect cx d source))
    (hkeep : ∀ c, Conserves R (Engine.modifyHandle id ({ · with channels := some c })))
    (hbind : Conserves R (Engine.bindHandle cx id obj))
    (hdefine : ∀ ds, Conserves R (Engine.defineAll cx obj ds)) :
    Conserves R (Engine.attach cx cls obj id) := by
  refine .bind .get fun w => ?_
  have hrest : Conserves R (do
      Engine.bindHandle cx id obj
      Engine.defineAll cx obj (Engine.propertyDefinitions cls (w.plans.descriptor cls))) :=
    .bind hbind fun _ => hdefine _
  dsimp only
  split
  · split
    · refine .bind .sourceOf fun source => ?_
      split
      · exact .bind (hconnect _ _) fun c => .bind (hkeep c) fun _ => hrest
      · exact hrest
    · exact hrest
  · exact hrest

end

/-! ## New handles -/

/-- A new handle for an instance is attached to an object. -/
def Engine.attachNew (cx : ContextId) (cls : ClassKey) (inst : InstanceId) (ownership : Ownership)
    (obj : ObjectId) : Engine Unit := do
  let id ← createHandle cls inst ownership
  attach cx cls obj id

/-- **For which instances a new handle may be attached**: for one of its class that is there now, and for
one that was there while it was held (`Fit`), whatever happened since.  The members of the object are
defined then. -/
structure Admits (R : World → World → Prop) (cx : ContextId) (cls : ClassKey) (ownership : Ownership)
    (Fit : World → InstanceId → Prop) : Prop where
  held {w : World} {inst : InstanceId} (hi : w.IsOf cls inst) (hh : .inst inst ∈ w.held.flatten) :
    Fit w inst
  lasts {w w' : World} {inst : InstanceId} (h : R w w') (hf : Fit w inst) : Fit w' inst
  attachNew {w : World} {inst : InstanceId} {obj : ObjectId} (hf : w.IsOf cls inst ∨ Fit w inst)
    (h : ∀ ds, Conserves R (Engine.defineAll cx obj ds)) :
    R w ((Engine.attachNew cx cls inst ownership obj).after w)

/-- If it does not matter for which instance a handle is, every instance is fit. -/
theorem Admits.of_conserves {R : World → World → Prop} {cx : ContextId} {cls : ClassKey}
    {ownership : Ownership} (h : ∀ inst obj, (∀ ds, Conserves R (Engine.defineAll cx obj ds)) →
      Conserves R (Engine.attachNew cx cls inst ownership obj)) :
    Admits R cx cls ownership fun _ _ => True where
  held _ _ := trivial
  lasts _ _ := trivial
  attachNew _ hd := h _ _ hd _

/-- An object that stands alone: it is no array, no promise that is settled or waited for, and has no native
data and no prototype, and no two of its properties have the same name. -/
structure Object.Alone (o : Object) : Prop where
  kind : ∀ items, o.kind ≠ .array items
  pending : ∀ state, o.kind = .promise state → state = .pending []
  attachment : o.attachment = none
  prototype : o.prototype = none
  names : (o.properties.map (·.1)).Nodup

/-- A reflexive and transitive relation that holds for each thing that is done to give foreign code an
object: properties, classes, promises and new handles. -/
class ForeignWork (R : World → World → Prop) : Prop extends Holds R where
  allocate {o : Object} (h : o.Alone) : Conserves R (Engine.allocate o)
  createWithPrototype (cx : ContextId) (proto : Option ObjectId) :
    Conserves R (Engine.createWithPrototype cx proto)
  createArray (cx : ContextId) (items : List ForeignValue) : Conserves R (Engine.createArray cx items)
  put (id : ObjectId) (name : String) (p : Property) :
    Conserves R (Engine.modifyObject id (·.put name p))
  attachNew (cx : ContextId) (cls : ClassKey) (ownership : Ownership) :
    ∃ Fit, Admits R cx cls ownership Fit
  /-- A class that was generated is kept. -/
  classOf (cx : ContextId) (cls : ClassKey)
    (h : ∀ registry, Conserves R (Engine.generateClass cx registry cls)) :
    Conserves R (Engine.classOf cx cls)
  promiseFor (cx : ContextId) (d : DeferredId) : Conserves R (Engine.promiseFor cx d)

/-- A reflexive and transitive relation that holds for each thing that actions on objects, classes,
instances and channels are made of. -/
class ObjectWork (R : World → World → Prop) : Prop extends NativeWork R, ForeignWork R where
  wrap (cx : ContextId) (id : ObjectId) (data : Script.Payload) :
    Conserves R (Engine.wrap cx id (.plain data))
  modifyContext (cx : ContextId) {f : Context → Context} (hf : ∀ c, (f c).core = c.core) :
    Conserves R (Engine.modifyContext cx f)
  note (entry : Document) : Conserves R (Engine.note entry)
  install (cx : ContextId) (registry : Registry) : Conserves R (Engine.install cx registry)
  connect (cx : ContextId) (d : TypeDescriptor) (source : SourceId) :
    Conserves R (Engine.connect cx d source)
  subscribe (cx : ContextId) (id : ChannelsId) (signature : String) (callback : Option ForeignValue) :
    Conserves R (Engine.subscribe cx id signature callback)
  complete (id : DeferredId) (status : DeferredStatus) (v : NativeValue) :
    Conserves R (Engine.complete id status v)
  /-- A job that was done is let go of. -/
  jobDone : Conserves R (modify fun w => { w with jobs := w.jobs.tail }.sweep : Engine Unit)

namespace Discipline

variable {R : World → World → Prop} [Discipline R] {cx : ContextId}

/-- A connection of channels makes the channels and enters them in the source. -/
theorem connect {descriptor source} : Conserves R (Engine.connect cx descriptor source) := by
  refine .now fun w => ?_
  have hquiet : R w { w with
      nextConnection := w.nextConnection + 1
      sources := w.sources.modify source.index (·.connect ⟨w.nextConnection⟩ ⟨w.channels.next⟩) } :=
    passive (.quiet (.of_eq rfl rfl))
  dsimp only
  split
  · next home i hb =>
    have hnone : ∀ s ∈ descriptor.events.map fun _ => (none : Option Token), s = none := by
      intro s hs
      obtain ⟨e, -, rfl⟩ := List.mem_map.1 hs
      rfl
    exact Conserves.set_now (trans hquiet (passive (.connect hb hnone))) fun _ => .pure
  · exact Conserves.set_now (passive (.quiet (.of_eq rfl rfl))) fun _ => .bind .bridge fun _ => .pure

theorem wrap {id data} : Conserves R (Engine.wrap cx id data) :=
  .wrapWith (.modifyObject fun _ => ⟨rfl, rfl⟩)

theorem createHandle {cls inst ownership} : Conserves R (Engine.createHandle cls inst ownership) :=
  .update (f := fun w => { w with handles := w.handles.insert { cls, inst, ownership } })
    (fun _ => passive (.quiet (.of_eq rfl rfl))) fun _ => .pure

theorem modifyHandle {id f} : Conserves R (Engine.modifyHandle id f) :=
  .quiet fun _ => .of_eq rfl rfl

theorem bindHandle {id obj} : Conserves R (Engine.bindHandle cx id obj) :=
  .bindHandleWith wrap modifyHandle

/-- An object is added that is no array. -/
theorem allocate {o : Object} (hk : ∀ items, o.kind ≠ .array items) : Conserves R (Engine.allocate o) := by
  have hq (w : World) : Quiet w { w with objects := w.objects.insert o } :=
    .of_frame (.insert _ _ fun items h => absurd h (hk items)) rfl
  exact .update (f := fun w => { w with objects := w.objects.insert o })
    (fun w => passive (.quiet (hq w))) fun _ => .bind .hold fun _ => .pure

end Discipline

instance {R : World → World → Prop} [Discipline R] : ObjectWork R where
  allocate h := Discipline.allocate h.kind
  createWithPrototype _ _ := .withPrototype (Discipline.allocate nofun)
  createArray cx items := by
    refine .now fun w => ?_
    split
    · next hi =>
      have hq : Quiet w { w with
          objects := w.objects.insert { context := cx, kind := .array items } } := by
        refine .of_frame (.insert _ _ fun items' hk p hp => ?_) rfl
        cases hk
        obtain ⟨o, ho⟩ := Option.isSome_iff_exists.1 (List.all_eq_true.1 hi _ hp)
        exact Store.lt_next_of_get? ho
      have hrest : Conserves R (do
          Engine.hold [.object ⟨w.objects.next⟩]
          return (⟨w.objects.next⟩ : ObjectId)) := .bind .hold fun _ => .pure
      exact Discipline.trans (Discipline.passive (.quiet hq)) (hrest _)
    · exact Conserves.abort w
  put _ _ _ := .modifyObject fun _ => ⟨rfl, rfl⟩
  wrap _ _ _ := Discipline.wrap
  attachNew _ _ _ := ⟨_, .of_conserves fun _ _ h => .bind Discipline.createHandle fun _ => .attachWith
    (fun _ _ => Discipline.connect) (fun _ => Discipline.modifyHandle) Discipline.bindHandle h⟩
  modifyContext cx f hf := by
    refine .quiet fun w => ⟨.refl _, rfl, rfl, rfl, fun c => ?_, rfl, rfl, rfl, rfl, rfl, rfl,
      fun _ he => .inl he⟩
    rw [World.context?, Store.get?_modify]
    split
    · rw [Option.map_map]
      exact congrArg (Option.map · _) (funext hf)
    · rfl
  note _ := .quiet fun _ => .of_eq rfl rfl
  install cx registry := by
    refine .bind' .context fun w c w' hc => ?_
    obtain ⟨rfl, hc⟩ := Engine.context_ok hc
    refine Conserves.modify_now (Discipline.passive (.install (by rw [hc]; rfl) registry)) fun _ => ?_
    split
    · exact .letGo
    · exact .pure
  connect _ _ _ := Discipline.connect
  subscribe cx id signature callback := by
    refine .bind .get fun w => ?_
    split
    · split
      · refine .ite (fun _ => .pure) fun _ => .bind' .bridge fun w b w' hb => ?_
        obtain ⟨rfl, hb⟩ := Engine.bridge_ok hb
        exact Conserves.operate_now (Discipline.passive (Passive.setSubscriber hb _ _ _)) fun _ => .pure
      · exact .pure
    · exact .abort
  complete id status v := by
    refine .now fun w => ?_
    split
    · exact Conserves.pure w
    · next done hd => exact Conserves.operate_now (Discipline.passive (.complete hd)) fun _ => .pure
  jobDone w := Discipline.trans (b := { w with jobs := w.jobs.tail })
    (Discipline.passive (.quiet (.of_eq rfl rfl))) (Releases.release _ _)
  classOf cx cls h := by
    refine .bind' .bridge fun _ (home, i) w hb => ?_
    obtain ⟨rfl, hb⟩ := Engine.bridge_ok hb
    dsimp only
    split
    · exact Conserves.bind .hold (fun _ => .pure) w
    · refine Conserves.bind_now (h _) fun obj w' hr =>
        Conserves.modify_now (Discipline.passive ?_) fun _ => .pure
      obtain ⟨hbuilds, ⟨o, ho, hc, hf⟩, -⟩ := Engine.generateClass_ok hr
      exact Passive.keepClass (cls, obj) (hbuilds.bridge?_eq.trans hb) ho hc hf
  promiseFor cx d := by
    refine .bind' .bridge fun _ (home, i) w hb => Conserves.get_now ?_
    obtain ⟨rfl, hb⟩ := Engine.bridge_ok hb
    split
    · next cell hd =>
      refine Conserves.hold_now fun held => Conserves.operate_now (Discipline.passive ?_) fun _ => .pure
      exact Passive.promise (w := { w with held }) hb hd
    · exact Conserves.abort w

namespace Conserves

section

variable {R : World → World → Prop} [ForeignWork R] {α β : Type} {run : Runner} {cx : ContextId}

/-! ## Objects -/

/-- A new object that refers to nothing is allocated. -/
theorem allocate {o : Object} (h : o.Alone) : Conserves R (Engine.allocate o) :=
  ForeignWork.allocate h

/-- An object is added that has neither properties nor a prototype. -/
theorem allocateEmpty {o : Object} (hk : ∀ items, o.kind ≠ .array items)
    (hs : ∀ state, o.kind = .promise state → state = .pending []) (ha : o.attachment = none)
    (hp : o.prototype = none) (hn : o.properties = []) : Conserves R (Engine.allocate o) :=
  allocate ⟨hk, hs, ha, hp, by simp [hn]⟩

theorem createArray {items} : Conserves R (Engine.createArray cx items) :=
  ForeignWork.createArray cx items

theorem put {id name p} : Conserves R (Engine.modifyObject id (·.put name p)) :=
  ForeignWork.put id name p

theorem putOwn {id name p} : Conserves R (Engine.putOwn id name p) :=
  bind object fun _ => bind put fun _ => letGo

/-- An error is an object with a message. -/
theorem createError {name message} : Conserves R (Engine.createError cx name message) :=
  allocate ⟨nofun, nofun, rfl, rfl, by simp⟩

theorem raiseError {message} : Conserves R (Engine.raiseError cx message : Engine α) :=
  bind createError fun _ => raise

theorem raiseTypeError {message} : Conserves R (Engine.raiseTypeError cx message : Engine α) :=
  bind createError fun _ => raise

/-! ## Properties -/

/-- Describing a value only reads, and may run out of depth. -/
theorem describe {v} : Conserves R (Engine.describe v) := by
  refine bind get fun w => ?_
  split
  · exact pure
  · exact throw

/-- Reading a property may run a getter. -/
theorem getProperty (hrun : Answers R run) {id name} :
    Conserves R (Engine.getProperty run cx id name) := by
  refine bind checkOwned fun _ => bind object fun o => ?_
  split
  · exact keep
  · refine bind get fun w => ?_
    split
    · exact keep
    · exact hrun.call
    · exact pure

/-- So may reading one of any value, which is an object or nothing. -/
theorem getValue (hrun : Answers R run) {v name} :
    Conserves R (Engine.getValue run cx v name) := by
  unfold Engine.getValue
  split
  · exact getProperty hrun
  · exact pure
  · exact bind describe fun _ => raiseTypeError
  · exact bind describe fun _ => raiseTypeError
  · exact pure

/-- Assigning a property may run a setter. -/
theorem setProperty (hrun : Answers R run) {id name v} :
    Conserves R (Engine.setProperty run cx id name v) := by
  refine bind checkOwned fun _ => bind get fun w => ?_
  split
  · exact bind hrun.call fun _ => pure
  · exact raiseTypeError
  · exact raiseTypeError
  · exact putOwn
  · exact putOwn

theorem define {id d} : Conserves R (Engine.define cx id d) := by
  unfold Engine.define
  split
  · exact bind (allocateEmpty nofun nofun rfl rfl rfl) fun _ => putOwn
  · exact putOwn
  · exact putOwn

theorem defineAll {id ds} : Conserves R (Engine.defineAll cx id ds) :=
  bind checkOwned fun _ => forM fun _ => define

/-- Defining a class makes its constructor and its prototype, with all members. -/
theorem defineClass {name code data ds} :
    Conserves R (Engine.defineClass cx name code data ds) :=
  bind (allocateEmpty nofun nofun rfl rfl rfl) fun _ => bind (allocateEmpty nofun nofun rfl rfl rfl) fun _ =>
    bind putOwn fun _ => bind putOwn fun _ =>
    bind (forM fun _ => define) fun _ => pure

/-! ## Functions -/

/-- What is called must be a function of the context. -/
theorem callable {f} : Conserves R (Engine.callable cx f) := by
  refine bind get fun w => ?_
  split
  · split
    · exact pure
    · exact bind describe fun _ => raiseTypeError
  · exact bind describe fun _ => raiseTypeError

theorem createWithPrototype {proto} : Conserves R (Engine.createWithPrototype cx proto) :=
  ForeignWork.createWithPrototype cx proto

/-- An instance is made with the prototype that the class has at that moment. -/
theorem createInstance (hrun : Answers R run) {cls} :
    Conserves R (Engine.createInstance run cx cls) :=
  bind (getProperty hrun) fun _ => createWithPrototype

theorem createPromise : Conserves R (Engine.createPromise cx) := by
  refine allocateEmpty nofun (fun state h => ?_) rfl rfl rfl
  cases h
  rfl

/-! ## Installations -/

/-- A callback is only looked up. -/
theorem callback? {id slot} : Conserves R (Engine.callback? id slot) := by
  refine bind get fun w => ?_
  split
  · split
    · exact pure
    · exact pure
  · exact pure

/-! ## Handles -/

/-- A handle is found by the object that is bound to it. -/
theorem handleOf {id} : Conserves R (Engine.handleOf cx id) := by
  refine bind checkOwned fun _ => bind object fun o => ?_
  split
  · exact bind get fun _ => pure
  · exact pure

/-! ## Classes -/

/-- A conversion without objects makes at most an array. -/
theorem encodePlain {limit e v} : Conserves R (Engine.encodePlain cx limit e v) := by
  unfold Engine.encodePlain
  split
  case h_5 => exact ite (fun _ => bind (allocateEmpty nofun nofun rfl rfl rfl) fun _ => pure) fun _ => pure
  case h_8 => exact raiseTypeError
  all_goals exact pure

/-- The value of a constant is converted when the class is generated. -/
theorem constantDefinition {registry d name c} :
    Conserves R (Engine.constantDefinition cx registry d name c) := by
  unfold Engine.constantDefinition
  dsimp only
  split
  · exact abort
  · refine bind (attempt encodePlain) fun r => ?_
    split
    · exact pure
    · exact abort
    · exact throw

theorem generateClass {registry cls} : Conserves R (Engine.generateClass cx registry cls) :=
  bind get fun _ => bind (mapM fun _ => constantDefinition) fun _ => defineClass

theorem classOf {cls} : Conserves R (Engine.classOf cx cls) :=
  ForeignWork.classOf cx cls fun _ => generateClass

/-- A new handle is attached for an instance that is there. -/
theorem attachNew_now {cls : ClassKey} {inst : InstanceId} {ownership : Ownership} {obj : ObjectId}
    {w : World} (hi : w.IsOf cls inst) : R w ((Engine.attachNew cx cls inst ownership obj).after w) :=
  have ⟨_, h⟩ := ForeignWork.attachNew (R := R) cx cls ownership
  h.attachNew (.inl hi) fun _ => defineAll

/-- An instance that is held gets an object, whatever code of getters runs meanwhile. -/
theorem wrapInstance_now (hrun : Answers R run) {cls : ClassKey} {inst : InstanceId} {w : World}
    (hi : w.IsOf cls inst) (hh : .inst inst ∈ w.held.flatten) :
    R w ((Engine.wrapInstance run cx cls inst).after w) := by
  obtain ⟨Fit, h⟩ := ForeignWork.attachNew (R := R) cx cls .shared
  have hf := h.held hi hh
  refine bind_now classOf fun c w₁ hclass => bind_now (createInstance hrun) fun obj w₂ hcreate => ?_
  have hf₂ := h.lasts ((createInstance hrun).of_run hcreate) (h.lasts (classOf.of_run hclass) hf)
  rw [← bind_assoc]
  exact step_now (h.attachNew (.inr hf₂) fun _ => defineAll) fun _ w₃ _ => pure w₃

/-- Wrapping an instance makes its handle and its object, and the class where it is new. -/
theorem wrapNative (hrun : Answers R run) {cls v} :
    Conserves R (Engine.wrapNative run cx cls v) := by
  refine now fun w => ?_
  split
  · next inst _ =>
    split
    · next hi =>
      refine bind_now hold fun _ w₁ hr => ?_
      cases hr
      exact step_now (wrapInstance_now hrun hi (World.mem_holding.2 (.inl (List.mem_singleton.2 rfl))))
        fun _ w₂ _ => pure w₂
    · exact raiseTypeError w
  · exact raiseTypeError w

theorem exportClasses {target} : Conserves R (Engine.exportClasses cx target) :=
  bind registry fun _ => forM fun _ => bind classOf fun _ => defineAll

/-! ## Conversion -/

theorem promiseFor {d} : Conserves R (Engine.promiseFor cx d) :=
  ForeignWork.promiseFor cx d

/-- A conversion of one value makes what the type asks for. -/
theorem encode (hrun : Answers R run) {limit e v} :
    Conserves R (Engine.encode run cx limit e v) := by
  unfold Engine.encode
  split
  · split
    · exact bind promiseFor fun _ => pure
    · exact raiseTypeError
  · exact wrapNative hrun
  · exact encodePlain

mutual

/-- A conversion of any value goes through lists and variants. -/
theorem toForeign (hrun : Answers R run) {registry v} :
    Conserves R (Engine.toForeign run cx registry v) := by
  unfold Engine.toForeign
  split
  · exact toForeign hrun
  · refine bind (allToForeign hrun) fun r => ?_
    split
    · exact bind createArray fun _ => pure
    · exact pure
  · split
    · exact bind (encode hrun) fun _ => pure
    · exact pure

/-- The items of a list are converted in order, up to the first that fails. -/
theorem allToForeign (hrun : Answers R run) {registry vs} :
    Conserves R (Engine.allToForeign run cx registry vs) := by
  unfold Engine.allToForeign
  split
  · exact pure
  · refine bind (toForeign hrun) fun r => ?_
    split
    · exact pure
    · refine bind (allToForeign hrun) fun r => ?_
      split
      · exact pure
      · exact pure

end

/-- The arguments of an event are converted in order, and the first failure is raised. -/
theorem eventArguments (hrun : Answers R run) {registry args} :
    Conserves R (Engine.eventArguments run cx registry args) := by
  induction args with
  | nil => exact pure
  | cons v rest ih =>
    unfold Engine.eventArguments
    refine bind (attempt (toForeign hrun)) fun r => ?_
    have hrest {first} : Conserves R (do
        return first :: (← Engine.eventArguments run cx registry rest)) :=
      bind ih fun _ => pure
    split
    · exact hrest
    · exact bind raiseError fun _ => hrest
    · exact bind raiseError fun _ => hrest
    · exact bind throw fun _ => hrest

/-- The subscriber of an event is only looked up. -/
theorem recipient? {token} : Conserves R (Engine.recipient? cx token) := by
  refine bind bridge fun _ => bind hold fun _ => bind callback? fun callback => ?_
  split
  · exact pure
  · exact bind hold fun _ => pure

/-- What a delivery does before it calls: it finds the subscriber and converts the arguments. -/
theorem prepareEvent (hrun : Answers R run) {token args} :
    Conserves R (Engine.prepareEvent run cx token args) := by
  refine bind recipient? fun found => ?_
  split
  · exact pure
  · exact bind (eventArguments hrun) fun _ => pure

/-! ## Members of classes -/

theorem bridgeError {e : BridgeError} : Conserves R (e.raise cx : Engine α) :=
  bind createError fun _ => raise

/-- Arguments are probed in order, without an effect. -/
theorem firstRefused {registry index pairs} :
    Conserves R (Engine.firstRefused cx registry index pairs) := by
  induction pairs generalizing index with
  | nil => exact pure
  | cons pair rest ih =>
    exact bind canFromForeign fun _ => ite (fun _ => ih) fun _ => pure

/-- They are converted in order. -/
theorem convertArguments {registry index pairs} :
    Conserves R (Engine.convertArguments cx registry index pairs) := by
  induction pairs generalizing index with
  | nil => exact pure
  | cons pair rest ih =>
    refine bind fromForeign fun r => ?_
    split
    · exact pure
    · refine bind ih fun r => ?_
      split
      · exact pure
      · exact pure

/-- The count is checked, then everything is probed, then everything is converted. -/
theorem arguments {m args} : Conserves R (Engine.arguments cx m args) := by
  unfold Engine.arguments
  refine check bridgeError fun _ => bind registry fun registry => ?_
  refine bind firstRefused fun r => ?_
  split
  · refine bind bridgeError fun _ => bind convertArguments fun r => ?_
    split
    · exact pure
    · exact bridgeError
  · refine bind convertArguments fun r => ?_
    split
    · exact pure
    · exact bridgeError

/-- A result is converted to a foreign value, or the call fails. -/
theorem resultToForeign (hrun : Answers R run) {member declared v} :
    Conserves R (Engine.resultToForeign run cx member declared v) := by
  refine ite (fun _ => pure) fun _ => ?_
  dsimp only
  split
  · exact bridgeError
  · refine bind registry fun _ => bind (toForeign hrun) fun r => ?_
    split
    · exact pure
    · exact bridgeError

/-- A call ends with what native code gave, or with an error of the member. -/
theorem finish (hrun : Answers R run) {m outcome} :
    Conserves R (Engine.finish run cx m outcome) := by
  cases outcome with
  | ok v => exact resultToForeign hrun
  | error e => exact bridgeError

/-- The receiver must be bound to an instance of the class. -/
theorem receiver {cls info} : Conserves R (Engine.receiver cx cls info) := by
  refine bind get fun w => ?_
  dsimp only
  split
  · refine bind handleOf fun h => ?_
    split
    · exact ite (fun _ => pure) fun _ => abort
    · exact abort
  · exact abort

theorem methodAt {cls index} : Conserves R (Engine.methodAt cls index) := by
  refine bind get fun w => ?_
  dsimp only
  split
  · exact pure
  · exact abort

theorem propertyAt {cls index} : Conserves R (Engine.propertyAt cls index) := by
  refine bind get fun w => ?_
  dsimp only
  split
  · exact pure
  · exact abort

/-- A getter asks the instance and converts what it gives. -/
theorem getMember (hrun : Answers R run) {cls info} :
    Conserves R (Engine.getMember run cx cls info) := by
  refine bind propertyAt fun _ => bind receiver fun _ => bind readMember fun r => ?_
  split
  · exact resultToForeign hrun
  · exact bridgeError

/-- A property is written after some checks. -/
theorem setMemberWith (hwrite : ∀ id index v, Conserves R (Engine.writeMember id index v)) {cls info} :
    Conserves R (Engine.setMember cx cls info) := by
  refine bind propertyAt fun _ => bind receiver fun _ => bind registry fun _ =>
    check bridgeError fun _ => check bridgeError fun _ => bind canFromForeign fun _ =>
      check bridgeError fun _ => bind fromForeign fun r => ?_
  split
  · exact bridgeError
  · exact bind (hwrite _ _ _) fun _ => ite (fun _ => pure) fun _ => bridgeError

end

section

variable {R : World → World → Prop} [ObjectWork R] {run : Runner} {cx : ContextId}

/-! ## Contexts and channels -/

/-- A change to a context that leaves its core alone is quiet. -/
theorem modifyContext {f : Context → Context} (hf : ∀ c, (f c).core = c.core) :
    Conserves R (Engine.modifyContext cx f) :=
  ObjectWork.modifyContext cx hf

theorem report {line} : Conserves R (Engine.report cx line) :=
  modifyContext fun _ => rfl

theorem note {entry} : Conserves R (Engine.note entry) :=
  ObjectWork.note entry

theorem install {registry} : Conserves R (Engine.install cx registry) :=
  ObjectWork.install cx registry

theorem connect {descriptor source} : Conserves R (Engine.connect cx descriptor source) :=
  ObjectWork.connect cx descriptor source

theorem subscribe {id signature callback} :
    Conserves R (Engine.subscribe cx id signature callback) :=
  ObjectWork.subscribe cx id signature callback

theorem wrap {id data} : Conserves R (Engine.wrap cx id (.plain data)) :=
  ObjectWork.wrap cx id data

/-! ## Background work -/

theorem complete {id status v} : Conserves R (Engine.complete id status v) :=
  ObjectWork.complete id status v

/-- A deed of a background job sets the count of an instance, or fires its event. -/
theorem enact {id deed} : Conserves R (Engine.enact id deed) := by
  refine now fun w => ?_
  split
  · next value source hi =>
    cases deed with
    | reached v => exact NativeWork.updateInstance hi _ rfl
    | announced a => exact emit w
  · exact pure w

/-- A background job does its deeds one after the other. -/
theorem runJob {job} : Conserves R (Engine.runJob job) := by
  cases job with
  | image d work =>
    refine bind get fun w => ?_
    split
    · exact bind createBuffer fun _ => bind matrixValue fun _ => bind complete fun _ => pure
    · exact bind complete fun _ => pure
  | count id count =>
    refine bind get fun w => ?_
    split
    · exact forM fun _ => enact
    · exact pure
  | complete d outcome =>
    cases outcome with
    | none => exact pure
    | some o => exact bind complete fun _ => pure
  | emit source event args => exact emit

/-- Jobs run in the order in which they were submitted. -/
theorem runJobs {count} : Conserves R (Engine.runJobs count) := by
  induction count with
  | zero => exact pure
  | succ count ih =>
    refine bind get fun w => ?_
    split
    · exact pure
    · exact bind runJob fun _ => bind ObjectWork.jobDone fun _ => ih

theorem finishJobs : Conserves R Engine.finishJobs :=
  bind get fun _ => runJobs

/-! ## Members -/

/-- A constructor makes an instance and its handle, and binds the new object to it. -/
theorem constructMember {cls info} : Conserves R (Engine.constructMember cx cls info) := by
  refine bind get fun w => check bridgeError fun _ => ?_
  split
  · refine bind' createDefault fun _ inst w hr => ?_
    rw [← bind_assoc]
    exact step_now (attachNew_now (Engine.isOf_createDefault hr)) fun _ w' _ => pure w'
  · exact abort

/-- A method goes through its arguments, its receiver and native code. -/
theorem invokeMember (hrun : Answers R run) {cls info} :
    Conserves R (Engine.invokeMember run cx cls info) :=
  bind methodAt fun _ => bind receiver fun _ => bind arguments fun _ => bind invoke fun _ =>
    finish hrun

/-- A static method does so without a receiver. -/
theorem invokeStaticMember (hrun : Answers R run) {cls info} :
    Conserves R (Engine.invokeStaticMember run cx cls info) :=
  bind methodAt fun _ => bind arguments fun _ => bind invokeStatic fun _ => finish hrun

theorem setMember {cls info} : Conserves R (Engine.setMember cx cls info) :=
  setMemberWith fun _ _ _ => writeMember

/-- Subscribing by a member sets the subscriber of one channel. -/
theorem onMember {cls info} : Conserves R (Engine.onMember cx cls info) := by
  refine bind receiver fun h => bind get fun w => ?_
  split
  · exact bind createArray fun _ => pure
  · refine ite (fun _ => ?_) fun _ => bridgeError
    dsimp only
    split
    · refine bind subscribe fun result => ?_
      split
      · exact pure
      · exact bridgeError
    · refine bind pure fun result => ?_
      split
      · exact pure
      · exact bridgeError
  · exact bridgeError

/-- Each kind of member is one of these. -/
theorem runMember (hrun : Answers R run) {cls role info} :
    Conserves R (Engine.runMember run cx cls role info) := by
  cases role with
  | construct => exact constructMember
  | invoke => exact invokeMember hrun
  | invokeStatic => exact invokeStaticMember hrun
  | get => exact getMember hrun
  | set => exact setMember
  | on => exact onMember

end

end Conserves

end Isthmus
