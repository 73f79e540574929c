import Isthmus.Proofs.Heap.Assign
import Isthmus.Proofs.Members.Reach
import Isthmus.Proofs.Members.Unwritten

/-!
# Proofs/Members/Access — access to native properties is guarded

An assignment counts its values, looks whether the type is one that may not be assigned, converts the
value, and only then hands it to the instance.  Reading asks the instance first, which changes nothing, and
then converts what it gave.

* `World.Assessed` — what the values of an assignment come to: a native value, or what is wrong first.
* `World.Stored` — what comes of an assignment.
* `World.Fetched` — what comes of what the instance gave.
* `Reachable.guards` — the instance is written to once with the native value, or not at all.

What converts a native instance reads the property `prototype` of its class, which scripts may redefine.
So reading may run a getter, and it stops if the prototype belongs to another context
(`stopped_and_mistagged`).
-/

namespace Isthmus

open World

/-! ## Assignments -/

/-- **What the values that a property is assigned come to**: a native value, or what is wrong first. -/
inductive World.Assessed (w : World) (cx : ContextId) (r : Registry) (p : PropertyDescriptor)
    (args : List ForeignValue) : Except BridgeError NativeValue → Prop where
  | miscounted (hc : args.length ≠ 1) :
      Assessed w cx r p args (.error (.propertySetArity p.name args.length))
  | dynamic {v} (ha : args = [v]) (hd : r.isDynamic p.type = true) :
      Assessed w cx r p args (.error (.dynamicProperty p.name (ClassKey.typeName p.type)))
  | unconverted {v} (ha : args = [v]) (hd : r.isDynamic p.type = false)
      (hv : ¬ w.Converts cx r (v, p.type)) :
      Assessed w cx r p args (.error (.propertyConversion p.name (ClassKey.typeName p.type)))
  | accepted {v n} (ha : args = [v]) (hd : r.isDynamic p.type = false)
      (hn : w.Becomes cx r (v, p.type) n) : Assessed w cx r p args (.ok n)

namespace World.Assessed

variable {w : World} {cx : ContextId} {r : Registry} {p : PropertyDescriptor}
  {args : List ForeignValue} {verdict : Except BridgeError NativeValue}

/-- **When an assignment is accepted**. -/
theorem accepts_iff (h : w.Assessed cx r p args verdict) :
    (∃ n, verdict = .ok n) ↔
      ∃ v, args = [v] ∧ r.isDynamic p.type = false ∧ w.Converts cx r (v, p.type) := by
  cases h with
  | miscounted hc => exact iff_of_false nofun fun ⟨v, ha, _⟩ => hc (ha ▸ rfl)
  | dynamic ha hd => exact iff_of_false nofun fun ⟨_, _, hd', _⟩ => by cases hd.symm.trans hd'
  | unconverted ha hd hv =>
    refine iff_of_false nofun fun ⟨v, ha', _, hc⟩ => hv ?_
    cases ha.symm.trans ha'
    exact hc
  | accepted ha hd hn => exact iff_of_true ⟨_, rfl⟩ ⟨_, ha, hd, _, hn⟩

/-- The native value has the declared type. -/
theorem typeId (hr : r.Tagged) {n} (h : w.Assessed cx r p args (.ok n)) : n.typeId = p.type := by
  cases h with
  | accepted ha hd hn => exact typeId_of_fromForeign hr hn

end World.Assessed

/-- The end of an assignment: whether the instance took the value. -/
def Engine.answer (w : World) (cx : ContextId) (p : PropertyDescriptor) (taken : Bool) :
    EStateM.Result Stop World ForeignValue :=
  if taken then .ok .undefined w else w.throws cx (.writeFailed p.name)

/-- **What comes of an assignment**: what is wrong is thrown, or the instance is written to. -/
inductive World.Stored (w : World) (cx : ContextId) (r : Registry) (p : PropertyDescriptor)
    (args : List ForeignValue) (inst : InstanceId) (index : Nat) :
    EStateM.Result Stop World ForeignValue → Prop where
  | refused {e} (he : w.Assessed cx r p args (.error e)) :
      Stored w cx r p args inst index (w.throws cx e)
  | written {n taken w'} (hn : w.Assessed cx r p args (.ok n))
      (hw : (Engine.writeMember inst index n).run w = .ok taken w') :
      Stored w cx r p args inst index (Engine.answer w' cx p taken)

namespace Engine

variable {w : World} {cx : ContextId} {key : ClassKey} {info : CallInfo} {p : PropertyDescriptor}
  {x : Handle}

theorem run_writeMember (w : World) (inst : InstanceId) (index : Nat) (v : NativeValue) :
    ∃ taken w', (writeMember inst index v).run w = .ok taken w' := by
  rw [writeMember, run_get_bind]
  split
  · split
    · exact ⟨true, _, rfl⟩
    · exact ⟨false, _, rfl⟩
  · split
    · exact ⟨true, _, rfl⟩
    · exact ⟨false, _, rfl⟩
  · exact ⟨false, _, rfl⟩

/-- **An assignment** is checked before the instance gets the value. -/
theorem run_set (hn : w.Nested) {id i} (hb : w.bridge? cx = some (id, i))
    (hp : (w.plans.descriptor key).properties[info.data]? = some p)
    (hx : w.handleFor cx key info.receiver = .ok x) (hargs : ∀ v ∈ info.args, w.Within cx v)
    (run : Runner) :
    w.Stored cx i.registry p info.args x.inst info.data ((runMember run cx key .set info).run w) := by
  rw [runMember, setMember, run_bind_of_ok (run_propertyAt hp), run_bind_of_ok (run_receiver hx),
    run_bind_of_ok (run_registry hb)]
  by_cases hc : info.args.length ≠ 1
  · rw [if_pos hc]
    exact .refused (.miscounted hc)
  obtain ⟨v, ha⟩ := List.length_eq_one_iff.1 (not_not.1 hc)
  have harg : info.arg 0 = v := by
    rw [CallInfo.arg, ha]
    rfl
  rw [if_neg hc, harg]
  by_cases hd : i.registry.isDynamic p.type
  · rw [if_pos hd]
    exact .refused (.dynamic ha hd)
  have hd' := Bool.not_eq_true _ ▸ hd
  obtain ⟨passes, result, hpasses, hresult, himp⟩ :=
    checks hn (hargs v (ha ▸ List.mem_singleton_self v)) i.registry p.type
  rw [if_neg hd, run_bind_of_ok (run_canFromForeign hpasses)]
  cases passes with
  | false =>
    refine .refused (.unconverted ha hd' ?_)
    rintro ⟨n, hc⟩
    cases himp ⟨n, Except.ok.inj (hresult.symm.trans hc)⟩
  | true =>
    rw [if_neg (by decide), run_bind_of_ok (run_fromForeign hresult)]
    cases result with
    | error e =>
      refine .refused (.unconverted ha hd' ?_)
      rintro ⟨n, hc⟩
      cases hresult.symm.trans hc
    | ok n =>
      obtain ⟨taken, w', hwrite⟩ := run_writeMember w x.inst info.data n
      have hstored := World.Stored.written (.accepted ha hd' hresult) hwrite
      rw [run_bind_of_ok hwrite]
      cases taken <;> exact hstored

end Engine

/-! ## Reading -/

/-- The method that reading a property is like: it takes nothing and gives a value of the type. -/
def PropertyDescriptor.getter (p : PropertyDescriptor) : MethodDescriptor where
  name := p.name
  parameters := []
  returns := p.type
  isStatic := false
  kind := .method

/-- **What comes of what an instance gave for a property**: if it gave a value, then what would come of a
method that ended with it. -/
inductive World.Fetched (w : World) (run : Runner) (cx : ContextId) (r : Registry)
    (p : PropertyDescriptor) :
    Option NativeValue → EStateM.Result Stop World ForeignValue → Prop where
  | missing : Fetched w run cx r p none (w.throws cx (.propertyRead p.name))
  | given {v result} (h : w.Returned run cx r p.getter (.ok v) result) :
      Fetched w run cx r p (some v) result

namespace Engine

variable {w : World} {cx : ContextId} {r : Registry} {key : ClassKey} {info : CallInfo}
  {p : PropertyDescriptor} {x : Handle} {found : Option NativeValue}

theorem run_readMember (w : World) (inst : InstanceId) (index : Nat) :
    ∃ found, (readMember inst index).run w = .ok found w := by
  rw [readMember, run_get_bind]
  split <;> exact ⟨_, rfl⟩

/-- **Reading** asks the instance and then converts what it gave. -/
theorem run_get {id i} (hb : w.bridge? cx = some (id, i))
    (hp : (w.plans.descriptor key).properties[info.data]? = some p)
    (hx : w.handleFor cx key info.receiver = .ok x) (run : Runner) :
    ∃ found, (readMember x.inst info.data).run w = .ok found w ∧
      w.Fetched run cx i.registry p found ((runMember run cx key .get info).run w) := by
  obtain ⟨found, hfound⟩ := run_readMember w x.inst info.data
  refine ⟨found, hfound, ?_⟩
  rw [run_getMember run hp hx, run_bind_of_ok hfound]
  cases found with
  | none => exact .missing
  | some v => exact .given (returned hb run p.getter (.ok v))

/-- Reading writes to no instance itself, whatever getters a conversion runs. -/
theorem unwritten_get {run : Runner} (hrun : Answers Unwritten run)
    (hp : (w.plans.descriptor key).properties[info.data]? = some p)
    (hx : w.handleFor cx key info.receiver = .ok x) :
    w.Unwritten ((runMember run cx key .get info).after w) := by
  obtain ⟨found, hfound⟩ := run_readMember w x.inst info.data
  have hresult (found : Option NativeValue) : Conserves Unwritten (readResult run cx p found) := by
    cases found with
    | none => exact .bridgeError
    | some v => exact .resultToForeign hrun
  rw [after, run_getMember run hp hx, run_bind_of_ok hfound]
  exact hresult found w

end Engine

/-- Where a context is ready for conversions, reading leaves what is there as it is. -/
theorem World.Fetched.keeps {w : World} {run : Runner} {cx : ContextId} {r : Registry}
    {p : PropertyDescriptor} {found : Option NativeValue} {m : Engine ForeignValue}
    (h : w.Fetched run cx r p found (m.run w)) (hw : w.Ready cx r) :
    (m.after w).instances = w.instances ∧
      ∀ id o, w.object? id = some o → (m.after w).object? id = some o := by
  have hlead (u : NativeValue) {w' : World} (hu : (Engine.toForeign run cx r u).after w = w') :
      w'.instances = w.instances ∧ ∀ id o, w.object? id = some o → w'.object? id = some o := by
    obtain ⟨ds, -, hl⟩ := Engine.leads_toForeign run hw u
    rw [hu] at hl
    exact ⟨hl.instances, fun id o ho => (hl.object? id (object?_lt ho)).trans ho⟩
  rw [Engine.after]
  generalize m.run w = result at h
  cases h with
  | missing => exact ⟨rfl, (w.spares_adding _).object⟩
  | given h =>
    cases h with
    | void => exact ⟨rfl, fun _ _ ho => ho⟩
    | mistyped => exact ⟨rfl, (w.spares_adding _).object⟩
    | converted _ hu hf => exact hlead _ (Engine.after_of_ok hf)
    | unconverted _ hu hf =>
      obtain ⟨hi, ho⟩ := hlead _ (Engine.after_of_ok hf)
      exact ⟨hi, fun id o h => (World.spares_adding _ _).object id o (ho id o h)⟩
    | stopped _ hu hf => exact hlead _ (Engine.after_of_error hf)

/-! ## The law -/

/-- The accessor that a property has on instances of the class. -/
def PropertyDescriptor.accessor (p : PropertyDescriptor) (cls : ClassKey) (index : Nat) : Property :=
  .accessor (if p.readable then some (.reader cls) else none)
    (if p.writable then some (.writer cls) else none) index true

/-- **Access to a property is guarded**: what becomes of a call of its accessor on a receiver that is bound
to an instance. -/
structure World.GuardsAccess (w : World) (cx : ContextId) (i : Installation) (cls : ClassKey)
    (info : CallInfo) (p : PropertyDescriptor) (inst : InstanceId) : Prop where
  /-- What is defined for the property has a setter only if it is writable. -/
  generated : ∃ d, (Engine.propertyDefinitions cls (w.plans.descriptor cls))[info.data]? = some d ∧
    ∀ cx obj, Engine.define cx obj d = Engine.putOwn obj p.name (p.accessor cls info.data)
  /-- Where the accessor is found, assigning a property that is not writable throws a type error and does
  nothing else. -/
  readOnly : p.writable = false → ∀ {obj o own}, w.object? obj = some o → o.context = cx →
    w.lookup obj p.name = some (p.accessor cls info.data, own) → ∀ (run : Runner) v,
      let e : Object :=
        .typeError cx ("Cannot set property " ++ p.name ++ " which has only a getter")
      (Engine.setProperty run cx obj p.name v).run w =
        .error (.thrown (.object ⟨w.objects.next⟩)) (w.adding e) ∧ w.Spares (w.adding e)
  /-- Assigning one that is writable calls the setter with the value. -/
  writable : p.writable = true → ∀ {obj o own}, w.object? obj = some o → o.context = cx →
    w.lookup obj p.name = some (p.accessor cls info.data, own) → ∀ n v,
      (Engine.setProperty (Session.runner (n + 1)) cx obj p.name v).run w =
        (do
          let _ ← Engine.runMember (Session.runner n) cx cls .set
            { receiver := .object obj, args := [v], data := info.data }).run w
  /-- Reading one that is readable calls the getter. -/
  readable : p.readable = true → ∀ {obj o own}, w.object? obj = some o → o.context = cx →
    o.items? = none → w.lookup obj p.name = some (p.accessor cls info.data, own) → ∀ n,
      (Engine.getProperty (Session.runner (n + 1)) cx obj p.name).run w =
        (Engine.runMember (Session.runner n) cx cls .get
          { receiver := .object obj, data := info.data }).run w
  /-- The setter gives the instance one native value, with the declared type, or throws what is wrong first
  and does nothing else. -/
  set : ∀ run : Runner, ∃ verdict, w.Assessed cx i.registry p info.args verdict ∧
    ((∃ n, verdict = .ok n) ↔ ∃ v, info.args = [v] ∧ i.registry.isDynamic p.type = false ∧
      w.Passes cx i.registry (v, p.type)) ∧
    (∀ e, verdict = .error e →
      (Engine.runMember run cx cls .set info).run w = w.throws cx e ∧
        w.Spares (w.adding (e.object cx))) ∧
    ∀ n, verdict = .ok n → n.typeId = p.type ∧
      ∃ taken w', (Engine.writeMember inst info.data n).run w = .ok taken w' ∧
        (Engine.runMember run cx cls .set info).run w = Engine.answer w' cx p taken
  /-- The getter converts what the instance gives, and asking the instance changes nothing. -/
  get : ∀ run : Runner, ∃ found, (Engine.readMember inst info.data).run w = .ok found w ∧
    w.Fetched run cx i.registry p found ((Engine.runMember run cx cls .get info).run w)
  /-- The getter writes to no instance, unless another getter does that it runs. -/
  unwritten : ∀ run : Runner, Isthmus.Answers Unwritten run →
    w.Unwritten ((Engine.runMember run cx cls .get info).after w)
  /-- It runs none if no prototype of a generated class was redefined. -/
  kept : (∀ e ∈ i.classes, w.PlainPrototype cx e.2) → ∀ run : Runner,
    let w' := (Engine.runMember run cx cls .get info).after w
    w'.instances = w.instances ∧ ∀ id o, w.object? id = some o → w'.object? id = some o

/-- **Access to native properties is guarded** on a context with a bridge that has the built-in conversions
and those of any classes, for values of the context. -/
theorem Reachable.guards {w : World} (h : Reachable w) {cx : ContextId} {id i}
    (hb : w.bridge? cx = some (id, i)) {plans : Plans} {keys : List ClassKey} {limit : Nat}
    {dynamic : List TypeId} (hr : i.registry = .withClasses plans keys limit dynamic) {cls : ClassKey}
    {info : CallInfo} {p : PropertyDescriptor}
    (hp : (w.plans.descriptor cls).properties[info.data]? = some p) {x : Handle}
    (hx : w.handleFor cx cls info.receiver = .ok x) (hargs : ∀ v ∈ info.args, w.Within cx v) :
    w.GuardsAccess cx i cls info p x.inst where
  generated := by
    let d : Engine.Definition :=
      { name := p.name
        member := .accessor (if p.readable then some (.reader cls) else none)
          (if p.writable then some (.writer cls) else none) info.data }
    refine ⟨d, ?_, fun cx obj => rfl⟩
    rw [Engine.propertyDefinitions, List.getElem?_map, List.getElem?_zipIdx, hp, Nat.zero_add]
    rfl
  readOnly hw _ _ _ ho hc hl run v := by
    rw [PropertyDescriptor.accessor, hw] at hl
    have hrun := Engine.run_setProperty_no_setter run ho hc hl v
    exact ⟨hrun.trans (Engine.run_raiseTypeError _), w.spares_adding _⟩
  writable hw _ _ _ ho hc hl n v := by
    rw [PropertyDescriptor.accessor, hw] at hl
    exact Engine.run_setProperty_setter _ ho hc hl v
  readable hr _ _ _ ho hc hi hl n := by
    rw [PropertyDescriptor.accessor, hr] at hl
    exact Engine.run_getProperty_getter _ ho hc hi hl
  set run := by
    have hstored := Engine.run_set h.nested hb hp hx hargs run
    generalize (Engine.runMember run cx cls .set info).run w = result at hstored
    have hexact : i.registry.Exact := hr ▸ Registry.exact_withClasses
    have hpasses : (∃ v, info.args = [v] ∧ i.registry.isDynamic p.type = false ∧
        w.Converts cx i.registry (v, p.type)) ↔ ∃ v, info.args = [v] ∧
          i.registry.isDynamic p.type = false ∧ w.Passes cx i.registry (v, p.type) := by
      refine exists_congr fun v => and_congr_right fun ha => and_congr_right fun _ => ?_
      have hv : w.Within cx v := hargs v (ha ▸ List.mem_singleton_self v)
      exact ⟨(·.passes h.nested hv), (·.converts hexact h.nested hv)⟩
    cases hstored with
    | refused he =>
      refine ⟨_, he, he.accepts_iff.trans hpasses, fun e h => ?_, fun n h => by cases h⟩
      cases h
      exact ⟨rfl, w.spares_adding _⟩
    | written hn hw =>
      refine ⟨_, hn, hn.accepts_iff.trans hpasses, fun e h => (by cases h), fun n h => ?_⟩
      cases h
      exact ⟨hn.typeId hexact.tagged, _, _, hw, rfl⟩
  get run := Engine.run_get hb hp hx run
  unwritten run hrun := Engine.unwritten_get hrun hp hx
  kept hplain run := by
    obtain ⟨found, -, hfetched⟩ := Engine.run_get hb hp hx run
    exact hfetched.keeps (h.ready hb hplain)

namespace Boxed

/-- A class with a property that holds anything and one that is true or false. -/
def plan : Puppet.Plan where
  descriptor :=
    (({ name := "Box" } : TypeDescriptor).property "content" .variant).property "mark" .bool
  slots := [{}, {}]

def content : PropertyDescriptor :=
  ⟨"content", .variant, true, true⟩

def mark : PropertyDescriptor :=
  ⟨"mark", .bool, true, true⟩

/-- The class. -/
def key : ClassKey :=
  .puppet (Fin.last 2)

/-- The built-in conversions and those of the class of matrices. -/
def registry : Registry :=
  .withClasses ⟨fun _ => plan⟩ [.matrix] 10 [.variant]

/-- Two contexts, the first with a bridge. -/
def host (r : Registry) : World :=
  ((({ plans := ⟨fun _ => plan⟩ } : World).openContext ⟨0⟩).openContext ⟨0⟩).install ⟨0⟩ r

/-- The class of matrices, whose prototype is some object. -/
def matrixClass : Object where
  context := ⟨0⟩
  kind := .function "Matrix" (.member .matrix .construct) 0
  properties := [("prototype", .plain (.object ⟨1⟩))]

/-- An object that is bound to a box. -/
def box : Object where
  context := ⟨0⟩
  attachment := some (.handle ⟨0⟩)

/-- Its handle. -/
def handle : Handle where
  cls := key
  inst := ⟨1⟩
  ownership := .shared
  state := .bound

/-- The class of matrices, its prototype, a matrix, and a box that holds the matrix. -/
def stocked (r : Registry) (owner : ContextId) : World :=
  { host r with
    objects := (((host r).objects.insert matrixClass).insert { context := owner }).insert box
    handles := (host r).handles.insert handle
    instances := ((host r).instances.insert (.matrix (Matrix.empty 0))).insert
      (.puppet (Fin.last 2) [some (.object ClassKey.matrix.typeId ⟨0⟩), none] ⟨0⟩)
    sources := (host r).sources.insert {} }

/-- The bridge keeps the class. -/
def world (r : Registry) (owner : ContextId) : World :=
  { stocked r owner with
    installations := (stocked r owner).installations.modify 0 fun i =>
      { i with classes := i.classes ++ [(.matrix, ⟨0⟩)] } }

theorem reachable_world (r : Registry) (owner : ContextId) : Reachable (world r owner) := by
  let first : World := { host r with objects := (host r).objects.insert matrixClass }
  let second : World := { first with objects := first.objects.insert { context := owner } }
  have hhost : Reachable (host r) := by
    refine ⟨⟨fun _ => plan⟩, ((Relation.ReflTransGen.single (.openContext ⟨0⟩)).tail
      (.openContext ⟨0⟩)).tail ?_⟩
    exact .install r rfl
  have hfirst : Move (host r) first := .quiet (.of_frame (.insert _ _ nofun) rfl)
  have hsecond : Move first second := .quiet (.of_frame (.insert _ _ nofun) rfl)
  have hstocked : Move second (stocked r owner) := .quiet (.of_frame (.insert _ box nofun) rfl)
  have hkeep : Move (stocked r owner) (world r owner) := by
    have hb : (stocked r owner).bridge? ⟨0⟩ = some (⟨0⟩, { registry := r }) := rfl
    exact .keepClass (.matrix, ⟨0⟩) hb rfl rfl rfl
  exact hhost.moves ((((Relation.ReflTransGen.single hfirst).tail hsecond).tail hstocked).tail hkeep)

theorem bridge?_world (r : Registry) (owner : ContextId) : (world r owner).bridge? ⟨0⟩ =
    some (⟨0⟩, { registry := r, classes := [(.matrix, ⟨0⟩)] }) := rfl

/-- A call of the accessor of the property at an index. -/
def call (index : Nat) (args : List ForeignValue) : CallInfo where
  receiver := .object ⟨2⟩
  args
  data := index

theorem handleFor_box (r : Registry) (owner : ContextId) (index : Nat) (args : List ForeignValue) :
    (world r owner).handleFor ⟨0⟩ key (call index args).receiver = .ok handle := rfl

theorem lookup_prototype (r : Registry) (owner : ContextId) :
    (world r owner).lookup ⟨0⟩ "prototype" = some (.plain (.object ⟨1⟩), true) := by
  rw [World.lookup]
  rfl

/-- What the setter does. -/
def set (r : Registry) (index : Nat) (args : List ForeignValue) :
    EStateM.Result Stop World ForeignValue :=
  (Engine.runMember (Session.runner 1) ⟨0⟩ key .set (call index args)).run (world r ⟨0⟩)

end Boxed

/-- The box takes a truth value; a text does not convert, and what holds anything may not be assigned.
Reading the matrix that the box holds makes a foreign object for it and changes neither of them. -/
theorem guards_of_box :
    (∃ n taken w', n.typeId = .bool ∧
      (Engine.writeMember ⟨1⟩ 1 n).run (Boxed.world Boxed.registry ⟨0⟩) = .ok taken w' ∧
      Boxed.set Boxed.registry 1 [.bool true] = Engine.answer w' ⟨0⟩ Boxed.mark taken) ∧
    Boxed.set Boxed.registry 1 [.string "yes"] =
      (Boxed.world Boxed.registry ⟨0⟩).throws ⟨0⟩ (.propertyConversion "mark" "bool") ∧
    Boxed.set Boxed.registry 0 [.bool true] =
      (Boxed.world Boxed.registry ⟨0⟩).throws ⟨0⟩ (.dynamicProperty "content" "variant") ∧
    ((Engine.runMember (Session.runner 1) ⟨0⟩ Boxed.key .get (Boxed.call 0 [.null])).after
      (Boxed.world Boxed.registry ⟨0⟩)).instances = (Boxed.world Boxed.registry ⟨0⟩).instances := by
  have hguards (index : Nat) {p} (hp : Boxed.plan.descriptor.properties[index]? = some p)
      {v : ForeignValue} (hv : v.asObject? = none) : (Boxed.world Boxed.registry ⟨0⟩).GuardsAccess ⟨0⟩
        { registry := Boxed.registry, classes := [(.matrix, ⟨0⟩)] } Boxed.key (Boxed.call index [v]) p
        ⟨1⟩ := by
    have hp : ((Boxed.world Boxed.registry ⟨0⟩).plans.descriptor Boxed.key).properties[(Boxed.call index
      [v]).data]? = some p := hp
    refine (Boxed.reachable_world Boxed.registry ⟨0⟩).guards (Boxed.bridge?_world _ _) rfl hp
      (Boxed.handleFor_box _ _ index [v]) fun u hu => ?_
    cases List.mem_singleton.1 hu
    exact .plain hv
  refine ⟨?_, ?_, ?_, ?_⟩
  · obtain ⟨verdict, -, haccepts, -, htaken⟩ :=
      (hguards 1 (p := Boxed.mark) rfl (v := .bool true) rfl).set (Session.runner 1)
    obtain ⟨n, hn⟩ := haccepts.2 ⟨.bool true, rfl, by decide, rfl⟩
    obtain ⟨htag, taken, w', hwrite, hrun⟩ := htaken n hn
    exact ⟨n, taken, w', htag, hwrite, hrun⟩
  · obtain ⟨verdict, hverdict, -, hthrows, -⟩ :=
      (hguards 1 (p := Boxed.mark) rfl (v := .string "yes") rfl).set (Session.runner 1)
    cases hverdict with
    | miscounted hc => exact absurd rfl hc
    | dynamic _ hd => cases hd
    | unconverted => exact (hthrows _ rfl).1
    | accepted ha _ hn =>
      cases ha
      cases hn
  · obtain ⟨verdict, hverdict, -, hthrows, -⟩ :=
      (hguards 0 (p := Boxed.content) rfl (v := .bool true) rfl).set (Session.runner 1)
    cases hverdict with
    | miscounted hc => exact absurd rfl hc
    | dynamic => exact (hthrows _ rfl).1
    | unconverted _ hd => cases hd
    | accepted _ hd => cases hd
  · refine ((hguards 0 (p := Boxed.content) rfl (v := .null) rfl).kept (fun e he => ?_)
      (Session.runner 1)).1
    cases List.mem_singleton.1 he
    intro q own hq
    cases (Boxed.lookup_prototype Boxed.registry ⟨0⟩).symm.trans hq
    refine .inr ⟨_, _, _, rfl, fun id hid => ?_⟩
    cases hid
    exact ⟨_, rfl, rfl⟩

namespace Boxed

/-- Making an object for the matrix stops at a prototype of another context. -/
theorem run_wrapInstance : ∃ text w', (Engine.wrapInstance (Session.runner 1) ⟨0⟩ .matrix ⟨0⟩).run
    ((world registry ⟨1⟩).holding [.inst ⟨0⟩]) = .error (.aborted text) w' := by
  let w := ((world registry ⟨1⟩).holding [.inst ⟨0⟩]).holding [.object ⟨0⟩]
  have hclass : (Engine.classOf ⟨0⟩ .matrix).run ((world registry ⟨1⟩).holding [.inst ⟨0⟩]) = .ok ⟨0⟩ w :=
    rfl
  have hlookup : w.lookup ⟨0⟩ "prototype" = some (.plain (.object ⟨1⟩), true) := by
    rw [World.lookup]
    rfl
  have ho : w.object? ⟨0⟩ = some matrixClass := rfl
  have hget := Engine.run_getProperty_data (Session.runner 1) ho rfl rfl hlookup
  have hcreate : (Engine.createInstance (Session.runner 1) ⟨0⟩ ⟨0⟩).run w = _ :=
    Engine.run_bind_of_ok hget
  exact ⟨_, _, (Engine.run_bind_of_ok hclass).trans (Engine.run_bind_of_error (hcreate.trans rfl))⟩

theorem run_toForeign : ∃ text w', (Engine.toForeign (Session.runner 1) ⟨0⟩ registry
    (.variant (.object ClassKey.matrix.typeId ⟨0⟩))).run (world registry ⟨1⟩) =
      .error (.aborted text) w' := by
  obtain ⟨text, w', hwrap⟩ := run_wrapInstance
  have hencode : (Engine.encode (Session.runner 1) ⟨0⟩ registry.maxBufferLength (.instance .matrix)
      (.object ClassKey.matrix.typeId ⟨0⟩)).run (world registry ⟨1⟩) = .error (.aborted text) w' := by
    change EStateM.run (do
      return ForeignValue.object (← Engine.wrapInstance (Session.runner 1) ⟨0⟩ .matrix ⟨0⟩))
      ((world registry ⟨1⟩).holding [.inst ⟨0⟩]) = _
    exact Engine.run_bind_of_error hwrap
  have he : registry.encoder? ClassKey.matrix.typeId = some (.instance .matrix) := rfl
  refine ⟨text, w', ?_⟩
  rw [Engine.toForeign, Engine.toForeign_eq (Session.runner 1) (by simp) (by simp) he]
  exact Engine.run_bind_of_error hencode

/-- So reading the matrix out of the box stops. -/
theorem run_get_content : ∃ text w', (Engine.runMember (Session.runner 1) ⟨0⟩ key .get
    (call 0 [])).run (world registry ⟨1⟩) = .error (.aborted text) w' := by
  obtain ⟨text, w', hto⟩ := run_toForeign
  have hp : ((world registry ⟨1⟩).plans.descriptor key).properties[(call 0 []).data]? =
    some content := rfl
  obtain ⟨found, hfound, hfetched⟩ := Engine.run_get (bridge?_world registry ⟨1⟩) hp
    (handleFor_box _ _ 0 []) (Session.runner 1)
  cases hfound
  generalize (Engine.runMember _ _ _ _ _).run _ = result at hfetched ⊢
  obtain _ | hreturned := hfetched
  cases hreturned with
  | void h => cases h
  | mistyped _ hv => cases hv
  | converted _ hv hf =>
    cases hv
    cases hto.symm.trans hf
  | unconverted _ hv hf =>
    cases hv
    cases hto.symm.trans hf
  | stopped _ hv hf =>
    cases hv
    cases hto.symm.trans hf
    exact ⟨_, _, rfl⟩

/-- A registry whose conversion to truth values gives texts. -/
def lax : Registry :=
  registry.withDecoder .bool .string

/-- With it the box is given a text for a truth value. -/
theorem set_mark : ∃ n taken w', n.typeId ≠ mark.type ∧
    (Engine.writeMember ⟨1⟩ 1 n).run (world lax ⟨0⟩) = .ok taken w' ∧
    set lax 1 [.string "yes"] = Engine.answer w' ⟨0⟩ mark taken := by
  have hargs : ∀ u ∈ (call 1 [.string "yes"]).args, (world lax ⟨0⟩).Within ⟨0⟩ u := by
    intro u hu
    cases List.mem_singleton.1 hu
    exact .plain rfl
  have hp : ((world lax ⟨0⟩).plans.descriptor key).properties[(call 1 [.string "yes"]).data]? =
    some mark := rfl
  have hstored := Engine.run_set (reachable_world _ _).nested (bridge?_world _ _) hp
    (handleFor_box _ _ 1 [.string "yes"]) hargs (Session.runner 1)
  rw [set]
  generalize (Engine.runMember _ _ _ .set _).run _ = result at hstored ⊢
  cases hstored with
  | refused he =>
    cases he with
    | miscounted hc => exact absurd rfl hc
    | dynamic _ hd => cases hd
    | unconverted ha _ hv =>
      cases ha
      exact absurd ⟨.string "yes", rfl⟩ hv
  | written hn hw =>
    cases hn with
    | accepted ha _ hn =>
      cases ha
      cases hn
      exact ⟨.string "yes", _, _, by decide, hw, rfl⟩

end Boxed

/-- **Conversions may do more**: reading the matrix stops if the prototype of its class belongs to another
context, though the box gives it and it is a variant; and a registry whose conversion to truth values gives
texts lets the box have a text for a truth value. -/
theorem stopped_and_mistagged :
    (Reachable (Boxed.world Boxed.registry ⟨1⟩) ∧
      (Engine.readMember ⟨1⟩ 0).run (Boxed.world Boxed.registry ⟨1⟩) =
        .ok (some (.object ClassKey.matrix.typeId ⟨0⟩)) (Boxed.world Boxed.registry ⟨1⟩) ∧
      (NativeValue.object ClassKey.matrix.typeId ⟨0⟩).convert Boxed.content.type =
        some (.variant (.object ClassKey.matrix.typeId ⟨0⟩)) ∧
      ∃ text w', (Engine.runMember (Session.runner 1) ⟨0⟩ Boxed.key .get (Boxed.call 0 [])).run
          (Boxed.world Boxed.registry ⟨1⟩) = .error (.aborted text) w') ∧
    Reachable (Boxed.world Boxed.lax ⟨0⟩) ∧
      ∃ n taken w', n.typeId ≠ Boxed.mark.type ∧
        (Engine.writeMember ⟨1⟩ 1 n).run (Boxed.world Boxed.lax ⟨0⟩) = .ok taken w' ∧
        Boxed.set Boxed.lax 1 [.string "yes"] = Engine.answer w' ⟨0⟩ Boxed.mark taken :=
  ⟨⟨Boxed.reachable_world _ _, rfl, rfl, Boxed.run_get_content⟩, Boxed.reachable_world _ _,
    Boxed.set_mark⟩

end Isthmus
