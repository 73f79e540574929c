import Isthmus.Proofs.Run.Actions

/-!
# Proofs/Run/Scripts — what the actions of a script do to the world

The actions of a script that run no code but getters and setters conserve every discipline.
-/

namespace Isthmus

/-! ## What the actions of a script are made of -/

/-- Every handle scope that is opened is closed again. -/
theorem Engine.scopes_scopeDepths {cx : ContextId} {count depths} {w w' : World}
    (h : (Session.scopeDepths cx count).run w = .ok depths w') :
    History.scopes cx w'.history = History.scopes cx w.history := by
  induction count generalizing w depths w' with
  | zero =>
    obtain ⟨c, w₁, hc, hr⟩ := Engine.bind_ok h
    obtain ⟨rfl, -⟩ := Engine.context_ok hc
    cases hr
    rfl
  | succ count ih =>
    obtain ⟨c, w₁, hc, hr⟩ := Engine.bind_ok h
    obtain ⟨rfl, -⟩ := Engine.context_ok hc
    obtain ⟨_, w₂, ho, hr⟩ := Engine.bind_ok hr
    cases ho
    obtain ⟨inside, w₃, hin, hr⟩ := Engine.bind_ok hr
    obtain ⟨_, w₄, ho, hr⟩ := Engine.bind_ok hr
    cases ho
    obtain ⟨c', w₅, hc', hr⟩ := Engine.bind_ok hr
    obtain ⟨rfl, -⟩ := Engine.context_ok hc'
    cases hr
    have h := ih hin
    simp only [World.openScope, History.scopes] at h
    simp only [World.closeScope, History.scopes, h, Nat.add_sub_cancel]

/-- To look a name up is to read. -/
theorem Conserves.named {R : World → World → Prop} [IsPreorder World R] {α : Type}
    {find : Roots → Option α} : Conserves R (Session.named find) := by
  refine bind get fun w => ?_
  split
  · exact pure
  · exact fail

/-- A name that is given up is gone, and the others keep their order. -/
theorem Names.remove_sublist {α : Type} (names : Names α) (name : String) :
    (names.remove name).Sublist names :=
  List.filter_sublist

/-- Tickets stay; promises and handles keep their names, or lose them. -/
structure Roots.Fades (r r' : Roots) : Prop where
  tickets : r'.tickets = r.tickets
  resolvers : r'.resolvers.Sublist r.resolvers
  handles : r'.handles.Sublist r.handles

/-- A reflexive and transitive relation that also holds for each thing that only a script does. -/
class ScriptWork (R : World → World → Prop) : Prop extends ObjectWork R where
  modifyRoots {f : Roots → Roots} (hf : ∀ r : Roots, r.Fades (f r)) : Conserves R (Session.modifyRoots f)
  createFile (bytes : Array UInt8) : Conserves R (Session.createFile bytes)
  addFinalizer (cx : ContextId) (id : ObjectId) (label : String) :
    Conserves R (Session.addFinalizer cx id label)
  unbind (cx : ContextId) (text : Option String) : Conserves R (modify (·.unbind cx text) : Engine Unit)
  scopeDepths (cx : ContextId) (count : Nat) : Conserves R (Session.scopeDepths cx count)
  openContext (global : ObjectId) : Conserves R (modify (·.openContext global) : Engine Unit)
  closeContext (cx : ContextId) (global : ObjectId) : Conserves R (Engine.operate fun w =>
    let (w, more) := w.closeContext cx
    (w, .letGo (.object global) :: more))
  useContext (cx : ContextId) : Conserves R (Session.useContext cx)
  /-- A new handle gets a name, for an instance of its class that is there. -/
  nameHandle (name : String) {cls : ClassKey} {inst : InstanceId} (ownership : Ownership) {w : World}
    (hi : w.IsOf cls inst) : R w ((do
      let id ← Engine.createHandle cls inst ownership
      Session.assignHandle name id
      Session.showHandle id : Engine Document).after w)
  bindNamed (cx : ContextId) (name : String) (obj : ObjectId) :
    Conserves R (Session.bindNamed cx name obj)

section

variable {R : World → World → Prop} [NativeWork R]
  (hnames : ∀ f : Names HandleId → Names HandleId,
    Conserves R (Session.modifyRoots fun r => { r with handles := f r.handles }))
include hnames

/-- A new handle gets a name, and the one that had it is let go of. -/
theorem Conserves.nameHandleWith {name cls inst ownership} {w : World}
    (hcreate : R w ((Engine.createHandle cls inst ownership).after w)) : R w ((do
      let id ← Engine.createHandle cls inst ownership
      Session.assignHandle name id
      Session.showHandle id : Engine Document).after w) := by
  have hassign {id} : Conserves R (Session.assignHandle name id) :=
    .bind .get fun _ => .bind (hnames (·.put name _)) fun _ => .letGo
  exact Conserves.step_now hcreate fun _ w' _ => Conserves.bind hassign (fun _ => .bind .get fun _ => .pure) w'

/-- A handle that is bound to an object has no name any more. -/
theorem Conserves.bindNamedWith {cx name obj} (hbind : ∀ id, Conserves R (Engine.bindHandle cx id obj)) :
    Conserves R (Session.bindNamed cx name obj) :=
  .bind .named fun _ => .bind (hnames (·.remove name)) fun _ => .bind (hbind _) fun _ =>
    .bind .get fun _ => .pure

end

/-- A native value that passes for an instance of a class holds one. -/
theorem Engine.instanceOf_ok {cls : ClassKey} {v : NativeValue} {inst : InstanceId} {w w' : World}
    (h : (Session.instanceOf cls v).run w = .ok inst w') :
    w' = w ∧ v.unwrap.asObject? = some inst ∧ w.IsOf cls inst := by
  rw [Session.instanceOf, run_get_bind] at h
  split at h
  · next id hv =>
    split at h
    · next hi =>
      cases h
      exact ⟨rfl, hv, hi⟩
    · cases h
  · cases h

/-- A value refers to what the value inside of its variants refers to. -/
theorem NativeValue.refs_unwrap (v : NativeValue) : v.unwrap.refs = v.refs := by
  cases v <;> rfl

/-- A value that holds an instance refers to it. -/
theorem NativeValue.mem_refs_of_asObject? {v : NativeValue} {inst : InstanceId}
    (h : v.unwrap.asObject? = some inst) : .inst inst ∈ v.refs := by
  rw [← refs_unwrap]
  revert h
  cases v.unwrap with
  | object type id =>
    rintro ⟨⟩
    exact List.mem_singleton.2 rfl
  | _ => exact nofun

/-- A value that a script builds is held. -/
theorem Engine.buildValue_ok {r : Recipe} {v : NativeValue} {w w' : World}
    (h : (Session.buildValue r).run w = .ok v w') : ∀ x ∈ v.refs, x ∈ w'.held.flatten := by
  obtain ⟨o, w₁, -, h⟩ := bind_ok h
  cases o with
  | none => cases h
  | some v =>
    cases h
    exact fun x hx => World.mem_holding.2 (.inl hx)

instance {R : World → World → Prop} [Discipline R] : ScriptWork R where
  modifyRoots hf := .quiet fun w => ⟨.refl _, rfl, rfl, rfl, fun _ => rfl, rfl, rfl, rfl, rfl,
    (hf w.roots).tickets, rfl, fun _ he => .inl ((hf w.roots).resolvers.subset he)⟩
  createFile bytes := .update (f := fun w => { w with
      files := w.files.add ("/tmp/session-" ++ toString w.files.entries.length) bytes })
    (fun _ => Discipline.passive (.quiet (.of_eq rfl rfl))) fun _ => .pure
  addFinalizer _ _ _ := .bind .checkOwned fun _ => .modifyObject fun _ => ⟨rfl, rfl⟩
  unbind cx _ := .modify fun w => Discipline.passive (.unbind w cx _)
  scopeDepths cx count := by
    induction count with
    | zero => exact .bind .context fun _ => .pure
    | succ count ih =>
      refine .bind' .context fun w c w' hc => ?_
      obtain ⟨rfl, hc⟩ := Engine.context_ok hc
      have hopen : Passive w' (w'.openScope cx) := .openScope (by rw [hc]; rfl)
      refine Discipline.trans (Discipline.passive hopen) (Conserves.bind_now ih fun inside w₁ hin => ?_)
      have hs : 0 < History.scopes cx w₁.history := by
        rw [Engine.scopes_scopeDepths hin]
        simp [World.openScope, History.scopes]
      exact Conserves.modify_now (Discipline.passive (.closeScope hs)) fun _ =>
        .bind .context fun _ => .pure
  openContext _ := .modify fun w => Discipline.passive (.openContext w _)
  closeContext cx _ := .operate fun w => Discipline.passive (.closeContext w cx)
  useContext _ := .quiet fun _ => .of_eq rfl rfl
  nameHandle _ _ _ _ _ _ := Conserves.nameHandleWith (fun _ => .quiet fun _ => .of_eq rfl rfl)
    (Discipline.createHandle _)
  bindNamed _ _ _ := .bindNamedWith (fun _ => .quiet fun _ => .of_eq rfl rfl) fun _ =>
    Discipline.bindHandle

namespace Conserves

/-- Converting to a native value changes nothing. -/
theorem convertFromForeign {R : World → World → Prop} [IsPreorder World R] {cx : ContextId} {v type} :
    Conserves R (Session.convertFromForeign cx v type) := by
  refine bind registry fun _ => bind fromForeign fun r => ?_
  split
  · exact pure
  · exact fail

section

variable {R : World → World → Prop} [ForeignWork R] {run : Runner} {cx : ContextId}

/-! ## Stock functions -/

/-- A stock function assigns to its receiver. -/
theorem setOnReceiver (hrun : Answers R run) {info name v} :
    Conserves R (Session.setOnReceiver run cx info name v) := by
  unfold Session.setOnReceiver
  split
  · exact setProperty hrun
  · exact pure

/-- Stock functions read, assign, throw or run the steps that they hold. -/
theorem runStock (hrun : Answers R run) {info code} :
    Conserves R (Session.runStock run cx info code) := by
  cases code with
  | made =>
    refine bind (setOnReceiver hrun) fun _ => ?_
    dsimp only
    split
    · refine bind object fun o => ?_
      split
      · exact bind (setOnReceiver hrun) fun _ => pure
      · exact pure
    · exact pure
  | object => exact bind (allocateEmpty nofun nofun rfl rfl rfl) fun _ => bind (setProperty hrun) fun _ => pure
  | fail => exact raiseError
  | getSlot => exact getValue hrun
  | setSlot => exact bind (setOnReceiver hrun) fun _ => pure
  | _ => exact pure

end

variable {R : World → World → Prop} [ScriptWork R] {α β : Type} {run : Runner} {cx : ContextId}
  {frame : Session.Frame}

/-! ## Names and expressions -/

/-- Tickets stay; promises and handles keep their names, or lose them. -/
theorem modifyRoots {f : Roots → Roots} (hf : ∀ r : Roots, r.Fades (f r)) :
    Conserves R (Session.modifyRoots f) :=
  ScriptWork.modifyRoots hf

theorem assign {name v} : Conserves R (Session.assign name v) :=
  bind get fun _ => bind (modifyRoots fun _ => ⟨rfl, .refl _, .refl _⟩) fun _ => letGo

theorem assignNative {name v} : Conserves R (Session.assignNative name v) :=
  bind get fun _ => bind (modifyRoots fun _ => ⟨rfl, .refl _, .refl _⟩) fun _ => letGo

theorem createFile {bytes} : Conserves R (Session.createFile bytes) :=
  ScriptWork.createFile bytes

/-- A path is followed one property after the other. -/
theorem follow (hrun : Answers R run) {v keys} : Conserves R (Session.follow run cx v keys) := by
  induction keys generalizing v with
  | nil => exact pure
  | cons key keys ih => exact bind (getValue hrun) fun _ => ih

mutual

/-- Expressions are evaluated from the inside out, and make arrays and objects on the way. -/
theorem eval (hrun : Answers R run) {e} : Conserves R (Session.eval run frame e) := by
  unfold Session.eval
  cases e with
  | array items => exact bind (evalAll hrun) fun _ => bind createArray fun _ => pure
  | object entries => exact bind (allocateEmpty nofun nofun rfl rfl rfl) fun _ => bind (evalEntries hrun) fun _ => pure
  | «variable» name => exact bind named fun _ => keep
  | buffer bytes => exact bind createBuffer fun _ => bind (allocateEmpty nofun nofun rfl rfl rfl) fun _ => pure
  | error name message => exact bind createError fun _ => pure
  | function closure => exact bind (allocateEmpty nofun nofun rfl rfl rfl) fun _ => pure
  | stock code data => exact bind (allocateEmpty nofun nofun rfl rfl rfl) fun _ => pure
  | file bytes => exact bind createFile fun _ => pure
  | global => exact bind context fun _ => keep
  | path start keys => exact bind (eval hrun) fun _ => follow hrun
  | _ => exact pure

theorem evalAll (hrun : Answers R run) {es} : Conserves R (Session.evalAll run frame es) := by
  unfold Session.evalAll
  cases es with
  | nil => exact pure
  | cons e rest => exact bind (eval hrun) fun _ => bind (evalAll hrun) fun _ => pure

theorem evalEntries (hrun : Answers R run) {id entries} :
    Conserves R (Session.evalEntries run frame id entries) := by
  unfold Session.evalEntries
  cases entries with
  | nil => exact pure
  | cons entry rest =>
    exact bind (eval hrun) fun _ => bind (setProperty hrun) fun _ => evalEntries hrun

end

theorem evalOr (hrun : Answers R run) {default e} :
    Conserves R (Session.evalOr run frame default e) := by
  cases e with
  | none => exact pure
  | some e => exact eval hrun

theorem evalObject (hrun : Answers R run) {e} :
    Conserves R (Session.evalObject run frame e) := by
  refine bind (eval hrun) fun v => ?_
  split
  · exact pure
  · exact fail

/-- A recipe makes the native value that it describes. -/
theorem buildValue {r} : Conserves R (Session.buildValue r) := by
  refine bind build fun v => ?_
  split
  · exact bind hold fun _ => pure
  · exact fail

theorem buildValues {rs} : Conserves R (Session.buildValues rs) := by
  refine bind buildAll fun vs => ?_
  split
  · exact bind hold fun _ => pure
  · exact fail

/-! ## The console -/

theorem consoleError {info} : Conserves R (Session.consoleError cx info) :=
  bind (mapM fun _ => describe) fun _ => bind report fun _ => pure

/-! ## Objects, promises and loops -/

/-- To inspect a value is to describe it, with all its properties. -/
theorem inspect {v} : Conserves R (Session.inspect v) := by
  refine bind get fun w => ?_
  split
  · split
    · exact pure
    · exact throw
  · exact throw

/-- A definition of a member is evaluated before anything is defined. -/
theorem definition (hrun : Answers R run) {spec} :
    Conserves R (Session.definition run frame spec) := by
  cases spec with
  | method name code data isStatic readOnly => exact pure
  | accessor name getter setter data isStatic readOnly => exact pure
  | value name e isStatic readOnly => exact bind (eval hrun) fun _ => pure

theorem unwrap {id} : Conserves R (Session.unwrap cx id) :=
  bind checkOwned fun _ => bind object fun _ => pure

theorem addFinalizer {id label} : Conserves R (Session.addFinalizer cx id label) :=
  ScriptWork.addFinalizer cx id label

/-- The text that a context carried is read before it is replaced. -/
theorem textOf {before : Option ContextData} : Conserves R (match before with
    | some (.text s) => return .text s
    | _ => return .null : Engine Document) := by
  split
  · exact pure
  · exact pure

theorem instanceData {replacement} : Conserves R (Session.instanceData cx replacement) := by
  refine bind context fun c => ?_
  dsimp only
  split
  · refine bind (ScriptWork.unbind cx _) fun _ => ?_
    split
    · exact bind letGo fun _ => textOf
    · exact textOf
  · exact textOf

theorem scopeDepths {count} : Conserves R (Session.scopeDepths cx count) :=
  ScriptWork.scopeDepths cx count

theorem takeDiagnostics : Conserves R (Session.takeDiagnostics cx) :=
  bind context fun _ => bind (modifyContext fun _ => rfl) fun _ => pure

theorem takeResolver {name} : Conserves R (Session.takeResolver name) :=
  bind named fun _ => bind hold fun _ =>
    bind (modifyRoots fun _ => ⟨rfl, Names.remove_sublist _ _, .refl _⟩) fun _ => pure

/-- A promise is shown without a check of its context. -/
theorem promiseState {v} : Conserves R (Session.promiseState cx v) := by
  refine bind get fun w => ?_
  split
  · exact pure
  · exact pure

theorem loopState : Conserves R (Session.loopState cx) :=
  bind get fun _ => pure

theorem bridgeState : Conserves R (Session.bridgeState cx) :=
  bind bridge fun _ => bind get fun _ => pure

/-! ## Contexts -/

theorem createContext : Conserves R Session.createContext :=
  bind get fun _ => bind (allocateEmpty nofun nofun rfl rfl rfl) fun _ =>
    bind (ScriptWork.openContext _) fun _ => bind (allocateEmpty nofun nofun rfl rfl rfl) fun _ =>
      bind (allocateEmpty nofun nofun rfl rfl rfl) fun _ => bind putOwn fun _ => bind putOwn fun _ => pure

theorem createHost {registry} : Conserves R (Session.createHost registry) :=
  bind createContext fun _ => bind install fun _ => bind (allocateEmpty nofun nofun rfl rfl rfl) fun _ =>
    bind (modifyContext fun _ => rfl) fun _ => bind exportClasses fun _ => bind context fun _ =>
      bind defineAll fun _ => pure

theorem failConfig {e} : Conserves R (Session.failConfig e : Engine α) :=
  fail

theorem createHostOf {result : Except Config.ConfigError Registry} : Conserves R (match result with
    | .error e => Session.failHost e
    | .ok registry => Session.createHost registry) := by
  split
  · exact fail
  · exact createHost

/-- A setup makes a context, or a host with the bridge installed. -/
theorem setUp {setup} : Conserves R (Session.setUp setup) := by
  refine bind get fun w => ?_
  dsimp only
  split
  · exact createContext
  · split
    · exact failConfig
    · exact bind createContext fun _ => bind install fun _ => pure
  · split
    · exact bind pure fun _ => createHostOf
    · split
      · exact bind pure fun _ => createHostOf
      · exact bind failConfig fun _ => createHostOf

/-- A context that is dropped ends with everything that it holds. -/
theorem dropContext : Conserves R (Session.dropContext cx) := by
  refine bind context fun c => bind (ScriptWork.unbind cx _) fun _ => ?_
  dsimp only
  split
  · exact bind letGo fun _ =>
      bind (ScriptWork.closeContext cx _) fun _ => letGo
  · exact bind (ScriptWork.closeContext cx _) fun _ => letGo

theorem exportsOf : Conserves R (Session.exportsOf cx) := by
  refine bind context fun c => ?_
  split
  · exact pure
  · exact fail

theorem exportedClass (hrun : Answers R run) {name} :
    Conserves R (Session.exportedClass run cx name) :=
  bind exportsOf fun _ => getProperty hrun

theorem useContext : Conserves R (Session.useContext cx) :=
  ScriptWork.useContext cx

/-! ## Native instances, handles and channels -/

/-- A conversion that a script asks for uses the registry of the bridge. -/
theorem convertToForeign (hrun : Answers R run) {v} :
    Conserves R (Session.convertToForeign run cx v) := by
  refine bind registry fun _ => bind (toForeign hrun) fun r => ?_
  split
  · exact pure
  · exact fail

theorem registryState {types} : Conserves R (Session.registryState cx types) :=
  bind registry fun _ => pure

theorem instanceOf {cls v} : Conserves R (Session.instanceOf cls v) := by
  refine bind get fun w => ?_
  split
  · exact ite (fun _ => pure) fun _ => fail
  · exact fail

/-- A native instance that the host makes has a name as its owner. -/
theorem newNative {name cls matrix} : Conserves R (Session.newNative name cls matrix) := by
  unfold Session.newNative
  dsimp only
  split
  · exact bind buildValue fun _ => assignNative
  · exact bind createDefault fun _ => bind pure fun _ => assignNative

theorem ofOutcome {r : Except NativeError α} : Conserves R (Session.ofOutcome r) := by
  cases r with
  | ok a => exact pure
  | error e => exact fail

theorem showFinished {v} : Conserves R (Session.showFinished v) :=
  bind hold fun _ => bind finishJobs fun _ => bind get fun _ => pure

/-- A call that the host makes of native code is not checked. -/
theorem callNative {id cls c} : Conserves R (Session.callNative id cls c) := by
  cases c with
  | invoke index args =>
    exact bind buildValues fun _ => bind invoke fun _ => bind ofOutcome fun _ => showFinished
  | invokeStatic index args =>
    exact bind buildValues fun _ => bind invokeStatic fun _ => bind ofOutcome fun _ => showFinished
  | read index =>
    refine bind readMember fun v => ?_
    split
    · exact showFinished
    · exact pure
  | write index recipe => exact bind buildValue fun _ => bind writeMember fun _ => pure

/-- A handle is made for an instance that the host owns. -/
theorem newHandle {name cls source} : Conserves R (Session.newHandle name cls source) := by
  unfold Session.newHandle
  dsimp only
  split
  · exact bind' createDefault fun _ inst w hr =>
      ScriptWork.nameHandle name .exclusive (Engine.isOf_createDefault hr)
  · refine bind named fun v => bind' instanceOf fun _ inst w hr => ?_
    obtain ⟨rfl, -, hi⟩ := Engine.instanceOf_ok hr
    exact ScriptWork.nameHandle name .shared hi
  · refine bind named fun v => bind' instanceOf fun _ inst w hr => ?_
    obtain ⟨rfl, -, hi⟩ := Engine.instanceOf_ok hr
    split
    · refine bind_now (modifyRoots fun _ => ⟨rfl, .refl _, .refl _⟩) fun _ w' hr' => ?_
      cases hr'
      exact ScriptWork.nameHandle name .exclusive hi
    · exact ScriptWork.nameHandle name .exclusive hi

theorem bindNamed {name obj} : Conserves R (Session.bindNamed cx name obj) :=
  ScriptWork.bindNamed cx name obj

/-- To watch an instance is to hold a weak reference to it. -/
theorem watch {name id h} : Conserves R (Session.watch name id h) :=
  modifyRoots fun _ => ⟨rfl, .refl _, .refl _⟩

theorem watchState {name} : Conserves R (Session.watchState name) :=
  bind named fun _ => bind get fun _ => pure

theorem assignSource {name id} : Conserves R (Session.assignSource name id) :=
  bind get fun _ => bind (modifyRoots fun _ => ⟨rfl, .refl _, .refl _⟩) fun _ => letGo

/-- The source of an instance may be given a name. -/
theorem nameSource {inst cls name} : Conserves R (Session.nameSource inst cls name) := by
  refine bind named fun _ => bind instanceOf fun _ => bind sourceOf fun source => ?_
  split
  · exact bind assignSource fun _ => pure
  · exact pure

theorem connectNamed {name source cls} : Conserves R (Session.connectNamed cx name source cls) :=
  bind named fun _ => bind get fun _ => bind connect fun _ => bind get fun _ =>
    bind (modifyRoots fun _ => ⟨rfl, .refl _, .refl _⟩) fun _ => bind letGo fun _ => pure

/-- Channels are found by the name that the host gave them. -/
theorem namedChannels {name} : Conserves R (Session.namedChannels name) := by
  refine bind named fun _ => bind get fun w => ?_
  split
  · exact pure
  · exact fail

theorem assignDeferred {name id} : Conserves R (Session.assignDeferred name id) :=
  bind get fun _ => bind (modifyRoots fun _ => ⟨rfl, .refl _, .refl _⟩) fun _ => letGo

theorem assignBuffer {name b} : Conserves R (Session.assignBuffer name b) :=
  bind get fun _ => bind (modifyRoots fun _ => ⟨rfl, .refl _, .refl _⟩) fun _ => letGo

theorem bufferInfo {name} : Conserves R (Session.bufferInfo name) :=
  bind named fun _ => bind get fun _ => pure

/-- What the host gives up is released, and nothing else. -/
theorem giveUp {find : Roots → Option α} {remove : Roots → Roots} {refs : α → List Ref}
    (hf : ∀ r : Roots, r.Fades (remove r)) :
    Conserves R (Session.giveUp find remove refs) :=
  bind named fun _ => bind (modifyRoots hf) fun _ => bind letGo fun _ => pure

end Conserves

end Isthmus
