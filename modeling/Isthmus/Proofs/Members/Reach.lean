import Isthmus.Proofs.Members.Making

/-!
# Proofs/Members/Reach — every member answers to its name

A class that was generated from a descriptor whose names differ serves each of its members under the
member's own name and index, for as long as nobody redefines them:

* `World.Serves` — what the class does: its static methods and its constants.
* `World.Answers` — what an instance does: its methods, its properties and `on`.
* `Engine.generateClass_serves` — a generated class serves, and the instances that are made of it answer.

Two names are special.  Where there are events, `on` is the name of their channels, and hides a method that
is called so; a property hides both.  Something on the class that is called `prototype` takes the place of
the prototype, and instances that are made then know no methods.
-/

namespace Isthmus

/-- The world in which a channel has another subscriber, or none. -/
def World.subscribing (w : World) (id : ChannelsId) (place : Nat) (home : InstallationId)
    (slot : Nat) (callback : Option ForeignValue) : World :=
  (w.setSubscriber id place home slot callback).1.release
    (w.setSubscriber id place home slot callback).2

namespace Engine

open World

variable {w : World} {cx : ContextId} {key : ClassKey} {info : CallInfo} {h : Handle}
  {p : PropertyDescriptor} (run : Runner)

/-! ## What members do -/

/-- Gives the foreign side what reading a property gave. -/
def readResult (cx : ContextId) (p : PropertyDescriptor) : Option NativeValue → Engine ForeignValue
  | some v => resultToForeign run cx p.name p.type v
  | none => (BridgeError.propertyRead p.name).raise cx

/-- The native value that a property is assigned. -/
def assignedValue (cx : ContextId) (p : PropertyDescriptor) (v : ForeignValue) :
    Engine NativeValue := do
  let registry ← registry cx
  if registry.isDynamic p.type then
    (BridgeError.dynamicProperty p.name (ClassKey.typeName p.type)).raise cx
  let refused := BridgeError.propertyConversion p.name (ClassKey.typeName p.type)
  if !(← canFromForeign cx registry v p.type) then refused.raise cx
  match ← fromForeign cx registry v p.type with
  | .error _ => refused.raise cx
  | .ok native => return native

/-- Assigns the property at an index of an instance. -/
def assignMember (cx : ContextId) (inst : InstanceId) (index : Nat) (p : PropertyDescriptor)
    (v : ForeignValue) : Engine Unit := do
  let native ← assignedValue cx p v
  if ← writeMember inst index native then return else (BridgeError.writeFailed p.name).raise cx

theorem run_propertyAt {index : Nat}
    (hp : (w.plans.descriptor key).properties[index]? = some p) :
    (propertyAt key index).run w = .ok p w := by
  rw [propertyAt, run_get_bind]
  simp only [hp]
  rfl

theorem run_getMember (hp : (w.plans.descriptor key).properties[info.data]? = some p)
    (hh : w.handleFor cx key info.receiver = .ok h) :
    (runMember run cx key .get info).run w =
      (readMember h.inst info.data >>= readResult run cx p).run w := by
  rw [runMember, getMember, run_bind_of_ok (run_propertyAt hp), run_bind_of_ok (run_receiver hh)]
  rfl

theorem run_setMember (hp : (w.plans.descriptor key).properties[info.data]? = some p)
    (hh : w.handleFor cx key info.receiver = .ok h) {v : ForeignValue} (hv : info.args = [v]) :
    (do let _ ← runMember run cx key .set info).run w =
      (assignMember cx h.inst info.data p v).run w := by
  have harg : info.arg 0 = v := by
    rw [CallInfo.arg, hv]
    rfl
  rw [runMember, setMember, assignMember, assignedValue, bind_assoc,
    run_bind_of_ok (run_propertyAt hp), bind_assoc, run_bind_of_ok (run_receiver hh), hv, harg]
  refine congrArg (EStateM.run · w) ?_
  simp only [bind_assoc, List.length_singleton, ne_eq, not_true_eq_false, if_false]
  refine bind_congr fun r => ?_
  split
  · rfl
  rw [bind_assoc, bind_assoc]
  refine bind_congr fun passes => ?_
  split
  · rfl
  rw [bind_assoc, bind_assoc]
  refine bind_congr fun converted => ?_
  cases converted with
  | error e => rfl
  | ok native =>
    rw [pure_bind, bind_assoc]
    refine bind_congr fun taken => ?_
    cases taken with
    | false => rfl
    | true => rfl

/-- `on` without arguments lists the signatures of the channels. -/
theorem run_on_list (hh : w.handleFor cx key info.receiver = .ok h) (ha : info.args = []) :
    (runMember run cx key .on info).run w = .ok (.object ⟨w.objects.next⟩)
      (w.adding
        { context := cx
          kind := .array (((w.plans.descriptor key).channels ClassKey.typeName).map .string) }) := by
  have hpresent : (((w.plans.descriptor key).channels ClassKey.typeName).map
      ForeignValue.string).all w.isPresent = true :=
    List.all_eq_true.2 fun v hv => by
      obtain ⟨s, -, rfl⟩ := List.mem_map.1 hv
      rfl
  rw [runMember, onMember, run_bind_of_ok (run_receiver hh), run_get_bind, ha]
  dsimp only
  rw [createArray, bind_assoc, run_get_bind, if_pos hpresent]
  rfl

/-- What `on` puts into a channel: a function, or nothing. -/
def listener? (w : World) (f : ForeignValue) : Option ForeignValue :=
  if w.isFunction f then some f else none

/-- `on` with a signature and a function or nothing changes the channel of the signature. -/
theorem run_on_subscribe (hh : w.handleFor cx key info.receiver = .ok h) {s : String}
    {f : ForeignValue} (ha : info.args = [.string s, f])
    (hf : w.isFunction f = true ∨ f.isNullish = true) {ch c place home i}
    (hch : h.channels = some ch) (hc : w.channels? ch = some c)
    (hs : c.signatures.findIdx? (· = s) = some place) (hb : w.bridge? cx = some (home, i)) :
    (runMember run cx key .on info).run w =
      .ok .undefined (w.subscribing ch place home i.nextSlot (listener? w f)) := by
  have hcallback : (listener? w f).any (!w.isFunction ·) = false := by
    rw [listener?]
    split
    · next hfunction => simp [hfunction]
    · rfl
  have hsubscribe : (subscribe cx ch s (listener? w f)).run w =
      .ok (.ok ()) (w.subscribing ch place home i.nextSlot (listener? w f)) := by
    rw [subscribe, run_get_bind, hc]
    dsimp only
    rw [hs]
    dsimp only
    rw [hcallback, if_neg Bool.false_ne_true, run_bind_of_ok (run_bridge hb)]
    rfl
  rw [runMember, onMember, run_bind_of_ok (run_receiver hh), run_get_bind, ha]
  dsimp only
  rw [if_pos ((Bool.or_eq_true_iff ..).2 hf), hch]
  exact (run_bind_of_ok hsubscribe).trans rfl

end Engine

/-! ## Classes and instances that do what their descriptor says -/

namespace World

open Engine

/-- **A class serves** its static methods and its constants: the name of a static method runs the method at
its own index, and the name of a constant gives its converted value. -/
structure Serves (v : World) (cx : ContextId) (r : Registry) (key : ClassKey) (cls : ObjectId) :
    Prop where
  static : ∀ i m, (v.plans.descriptor key).methods[i]? = some m → m.isEvent = false →
    m.isStatic = true → ∀ n args, ∃ refs,
      (callMethod (Session.runner (n + 1)) cx cls m.name args).run v =
        (arguments cx m args >>= fun natives => invokeStatic key i natives >>=
          Engine.finish (Session.runner n) cx m).run (v.holding refs)
  constant : ∀ e ∈ (v.plans.descriptor key).constants, ∃ encoder x,
    r.encoder? e.2.toNative.typeId = some encoder ∧
      (encodePlain cx r.maxBufferLength encoder e.2.toNative).run v = .ok x v ∧
      ∀ n, (getProperty (Session.runner n) cx cls e.1).run v = .ok x (v.holding [])

/-- **An instance answers** to the names of its members: the name of a method runs the method at its own
index, a property is read and assigned at its own index, and `on` lists the channels and subscribes to them.
What a class keeps on its prototype is hidden by a property of the name, and is out of reach if the class
has lost its prototype. -/
structure Answers (v : World) (cx : ContextId) (key : ClassKey) (obj : ObjectId) (h : Handle) :
    Prop where
  method : ∀ i m, (v.plans.descriptor key).methods[i]? = some m → m.isEvent = false →
    m.isStatic = false → ¬ ((v.plans.descriptor key).hasEvents = true ∧ m.name = "on") →
    ¬ (v.plans.descriptor key).TakesPrototype → ∀ n args, ∃ refs,
      (callMethod (Session.runner (n + 1)) cx obj m.name args).run v =
        (arguments cx m args >>= fun natives => invoke h.inst i natives >>=
          Engine.finish (Session.runner n) cx m).run (v.holding refs)
  read : ∀ i p, (v.plans.descriptor key).properties[i]? = some p → ∀ n,
    (getProperty (Session.runner (n + 1)) cx obj p.name).run v =
      if p.readable then
        (readMember h.inst i >>= readResult (Session.runner n) cx p).run v
      else .ok .undefined v
  assign : ∀ i p, (v.plans.descriptor key).properties[i]? = some p → ∀ n x,
    (setProperty (Session.runner (n + 1)) cx obj p.name x).run v =
      if p.writable then (assignMember cx h.inst i p x).run v
      else (raiseTypeError cx ("Cannot set property " ++ p.name ++ " which has only a getter") :
        Engine Unit).run v
  lists : (v.plans.descriptor key).hasEvents = true →
    "on" ∉ (v.plans.descriptor key).properties.map (·.name) →
    ¬ (v.plans.descriptor key).TakesPrototype → ∀ n, ∃ refs,
      (callMethod (Session.runner (n + 1)) cx obj "on" []).run v =
        .ok (.object ⟨v.objects.next⟩) ((v.holding refs).adding
          { context := cx
            kind := .array (((v.plans.descriptor key).channels ClassKey.typeName).map .string) })
  subscribes : (v.plans.descriptor key).hasEvents = true →
    "on" ∉ (v.plans.descriptor key).properties.map (·.name) →
    ¬ (v.plans.descriptor key).TakesPrototype → ∀ {ch c s place home i f},
      h.channels = some ch → v.channels? ch = some c →
      c.signatures.findIdx? (· = s) = some place → v.bridge? cx = some (home, i) →
      (v.isFunction f = true ∨ f.isNullish = true) → ∀ n, ∃ refs,
        (callMethod (Session.runner (n + 1)) cx obj "on" [.string s, f]).run v =
          .ok .undefined
            ((v.holding refs).subscribing ch place home i.nextSlot (listener? v f))

variable {w v : World} {cx : ContextId} {r : Registry} {key : ClassKey} {since : Nat}
  {cls proto obj : ObjectId} {d : TypeDescriptor}

/-- Calling the method that a definition has made runs its code. -/
theorem Table.run_callMethod {since' names kind prototype before last id}
    (h : Table cx since' names kind prototype before last v id) (hk : ∀ items, kind ≠ .array items)
    {name : String} {p : Property} {own : Bool} (hl : v.lookup id name = some (p, own))
    {d : Definition} (hm : d.Makes cx since v p) {code data} (hd : d.member = .method code data)
    (run : Runner) (args : List ForeignValue) : ∃ refs,
      (callMethod run cx id name args).run v =
        (run.call cx code { receiver := .object id, args, data }).run (v.holding refs) := by
  obtain ⟨o, ho, hc, hkind, -⟩ := h
  have hi : o.items? = none := by
    rw [Object.items?]
    split
    · next items heq => exact absurd (hkind.symm.trans heq) (hk items)
    · rfl
  rw [Definition.Makes, hd] at hm
  obtain ⟨f, fo, rfl, -, hf, hcf, hkf⟩ := hm
  exact ⟨[.object f], Engine.run_callMethod run ho hc hi hl hf hcf hkf args⟩

/-- **A generated class serves.** -/
theorem Generated.serves (hg : Generated cx r key d cls proto since v) (hn : d.names.Nodup) :
    v.Serves cx r key cls := by
  obtain ⟨rfl, constants, hc, ht⟩ := hg
  constructor
  case static =>
    intro i m hm he hs n args
    have hname : (v.plans.descriptor key).Matters m.name :=
      .inl (TypeDescriptor.mem_names_of_method hm he)
    obtain ⟨p, hl, hmake⟩ :=
      ht.ofClass.lookup_own hname (Definition.latest?_static hn hc hm he hs)
    have hmember : (methodDefinition key (m, i)).member =
        .method (.member key .invokeStatic) i := by
      rw [methodDefinition, if_pos hs]
    obtain ⟨refs, hrun⟩ := ht.ofClass.run_callMethod (by rintro _ ⟨⟩) hl hmake hmember
      (Session.runner (n + 1)) args
    have hm' : ((v.holding refs).plans.descriptor key).methods[i]? = some m := hm
    exact ⟨refs, hrun.trans (run_member hm' .static (Session.runner n))⟩
  case constant =>
    intro e he
    obtain ⟨c, hmem, encoder, x, hencoder, hrun, hplain, rfl⟩ := exists_constant hc he
    refine ⟨encoder, x, hencoder, hrun v, fun n => ?_⟩
    have hname : (v.plans.descriptor key).Matters e.1 :=
      .inl (TypeDescriptor.mem_names_of_constant he)
    obtain ⟨p, hl, rfl⟩ := ht.ofClass.lookup_own hname (Definition.latest?_constant hn hc hmem)
    obtain ⟨o, ho, hcx, hk, -⟩ := ht.ofClass
    have hi : o.items? = none := by
      rw [Object.items?, hk]
    have hrefs : x.refs = [] := by
      cases x with
      | object id => cases hplain
      | _ => rfl
    rw [run_getProperty_data _ ho hcx hi hl, hrefs]

/-- What an instance is: the properties are its own, and its prototype is the one that its class had. -/
structure IsInstance (cx : ContextId) (key : ClassKey) (d : TypeDescriptor) (proto obj : ObjectId)
    (v : World) : Prop where
  younger : proto.index < obj.index
  table : ∃ prototype, Table cx obj.index d.Matters .ordinary prototype (fun _ => none)
    (Definition.latest? (fun _ => true) (propertyDefinitions key d)) v obj ∧
      (¬ d.TakesPrototype → prototype = some proto)

namespace IsInstance

variable {h : Handle}

/-- A definition on the prototype is called on the instance. -/
theorem run_inherited (hi : IsInstance cx key d proto obj v)
    {before : String → Option Property} {last : String → Option Definition}
    (ht : Table cx since d.Matters .ordinary none before last v proto)
    (hp : ¬ d.TakesPrototype) {name : String} (hn : d.Matters name)
    (hno : name ∉ d.properties.map (·.name)) {e : Definition} (he : last name = some e)
    {code data} (hm : e.member = .method code data) (run : Runner) (args : List ForeignValue) :
    ∃ refs, (callMethod run cx obj name args).run v =
      (run.call cx code { receiver := .object obj, args, data }).run (v.holding refs) := by
  obtain ⟨prototype, hobj, hproto⟩ := hi.table
  obtain rfl := hproto hp
  obtain ⟨p, hl, hmake⟩ := hobj.lookup_inherited hn rfl (Definition.latest?_no_property hno)
    hi.younger ht he
  exact hobj.run_callMethod (by rintro _ ⟨⟩) hl hmake hm run args

/-- The name of a property is looked up on the instance itself. -/
theorem lookup_property (hi : IsInstance cx key d proto obj v) (hn : d.names.Nodup) {i : Nat}
    {p : PropertyDescriptor} (hp : d.properties[i]? = some p) :
    (∃ o, v.object? obj = some o ∧ o.context = cx ∧ o.items? = none) ∧
    v.lookup obj p.name = some (.accessor (if p.readable then some (.reader key) else none)
      (if p.writable then some (.writer key) else none) i true, true) := by
  obtain ⟨prototype, hobj, -⟩ := hi.table
  obtain ⟨q, hl, rfl⟩ := hobj.lookup_own (.inl (TypeDescriptor.mem_names_of_property hp))
    (Definition.latest?_property hn hp)
  obtain ⟨o, ho, hcx, hk, -⟩ := hobj
  exact ⟨⟨o, ho, hcx, by rw [Object.items?, hk]⟩, hl⟩

/-- **An instance of a generated class answers**, whatever handle it has. -/
theorem answers (hi : IsInstance cx key d proto obj v)
    (hg : Generated cx r key d cls proto since v) (hn : d.names.Nodup)
    (hh : v.handleFor cx key (.object obj) = .ok h) : v.Answers cx key obj h := by
  obtain ⟨rfl, constants, hc, ht⟩ := hg
  have hholding (refs) : (v.holding refs).handleFor cx key (.object obj) = .ok h := hh
  constructor
  case method =>
    intro i m hm he hs hon hp n args
    have hmember : (methodDefinition key (m, i)).member = .method (.member key .invoke) i := by
      rw [methodDefinition, if_neg (by simp [hs])]
    obtain ⟨refs, hrun⟩ := hi.run_inherited ht.ofPrototype hp
      (.inl (TypeDescriptor.mem_names_of_method hm he))
      (TypeDescriptor.not_property_of_method hn hm he)
      (Definition.latest?_method hn hc hm he hs hon) hmember (Session.runner (n + 1)) args
    have hm' : ((v.holding refs).plans.descriptor key).methods[i]? = some m := hm
    exact ⟨refs, hrun.trans (run_member hm' (.method (hholding refs)) (Session.runner n))⟩
  case lists =>
    intro hevents hno hp n
    obtain ⟨refs, hrun⟩ := hi.run_inherited ht.ofPrototype hp (.inr (.inl rfl)) hno
      (Definition.latest?_on hc hevents) rfl (Session.runner (n + 1)) []
    exact ⟨refs, hrun.trans (run_on_list (Session.runner n) (hholding refs) rfl)⟩
  case subscribes =>
    intro hevents hno hp ch c s place home i f hch hchannels hs hb hf n
    obtain ⟨refs, hrun⟩ := hi.run_inherited ht.ofPrototype hp (.inr (.inl rfl)) hno
      (Definition.latest?_on hc hevents) rfl (Session.runner (n + 1)) [.string s, f]
    exact ⟨refs, hrun.trans (run_on_subscribe (w := v.holding refs) (Session.runner n)
      (hholding refs) rfl hf hch hchannels hs hb)⟩
  case read =>
    intro i p hp n
    obtain ⟨⟨o, ho, hcx, hitems⟩, hl⟩ := hi.lookup_property hn hp
    cases hr : p.readable with
    | false =>
      rw [hr] at hl
      exact run_getProperty_no_getter _ ho hcx hitems hl
    | true =>
      rw [hr] at hl
      rw [run_getProperty_getter _ ho hcx hitems hl]
      exact run_getMember (Session.runner n) hp hh
  case assign =>
    intro i p hp n x
    obtain ⟨⟨o, ho, hcx, -⟩, hl⟩ := hi.lookup_property hn hp
    cases hw : p.writable with
    | false =>
      rw [hw] at hl
      exact run_setProperty_no_setter _ ho hcx hl x
    | true =>
      rw [hw] at hl
      rw [run_setProperty_setter _ ho hcx hl]
      exact run_setMember (Session.runner n) hp hh rfl

end IsInstance

/-- An instance stays one as long as nobody redefines what was added for it. -/
theorem Instantiated.isInstance {u u' : World} {x : ForeignValue}
    (h : Instantiated cx key d x.asObject? obj u u') (hk : Keeps u.objects.next d.Matters u' v)
    (hg : Generated cx r key d cls proto since u) (hx : ¬ d.TakesPrototype → x = .object proto) :
    IsInstance cx key d proto obj v := by
  have hkept : ∀ id : ObjectId, obj.index ≤ id.index → Untouched d.Matters u' v id :=
    fun id hid => hk.untouched id (Nat.le_trans (Nat.le_of_eq h.newest.symm) hid)
  constructor
  case younger =>
    obtain ⟨constants, -, ht⟩ := hg.tables
    obtain ⟨q, hq, -⟩ := ht.ofPrototype
    exact h.newest ▸ object?_lt hq
  case table =>
    have htable := h.table.untouched (hkept obj (Nat.le_refl _)) (Untouched.stays hkept)
      fun _ _ => trivial
    exact ⟨x.asObject?, htable, fun hp => by rw [hx hp]; rfl⟩

end World

/-! ## The law -/

/-- **Every member answers to its name.**  A class is generated from a descriptor whose names differ.  As
long as nobody redefines what was generated, the class serves its static methods and constants.  An instance
that is made of it leaves the class as it was and has a connected handle; as long as nobody redefines what
was added for the instance either, it answers to the names of its methods and properties and to `on`. -/
theorem Engine.generateClass_serves {w w₁ : World} {cx : ContextId} {r : Registry} {key : ClassKey}
    {cls : ObjectId} (h : (Engine.generateClass cx r key).run w = .ok cls w₁) {d : TypeDescriptor}
    (hd : w.plans.descriptor key = d) (hn : d.names.Nodup) :
    (∀ v, World.Keeps w.objects.next d.Matters w₁ v → v.Serves cx r key cls) ∧
    ∀ u obj u', World.Keeps w.objects.next d.Matters w₁ u →
      World.Instantiates cx key cls obj u u' →
      World.Keeps w.objects.next d.Matters w₁ u' ∧
      (∃ x, u'.handleFor cx key (.object obj) = .ok x ∧ u'.Connected d x) ∧
      ∀ v x, World.Keeps w.objects.next d.Matters w₁ v →
        World.Keeps u.objects.next d.Matters u' v →
        v.handleFor cx key (.object obj) = .ok x → v.Answers cx key obj x := by
  obtain ⟨proto, hg⟩ := World.generated h hd
  refine ⟨fun v hk => (hg v hk).serves hn, fun u obj u' hu hmade => ?_⟩
  obtain ⟨x, _, _, -, hi, hx⟩ := (hg u hu).instantiated hmade
  refine ⟨hu.older hi.older hi.plans, hi.handle, fun v handle hv hobj hh => ?_⟩
  exact (hi.isInstance hobj (hg u hu) hx).answers (hg v hv) hn hh

namespace Workshop

/-- The class that acts by a plan. -/
def key : ClassKey :=
  .puppet (Fin.last 2)

/-- A world with one native instance of the class, and a context with a bridge. -/
def world (plan : Puppet.Plan) : World :=
  (({ plans := ⟨fun _ => plan⟩
      instances := Store.empty.insert (.puppet (Fin.last 2) [] ⟨0⟩)
      sources := Store.empty.insert {} } : World).openContext ⟨0⟩).install ⟨0⟩ .base

/-- The class is generated, and an instance of it is made for the native one. -/
structure Made (plan : Puppet.Plan) (cls obj : ObjectId) (w u u' : World) (x : Handle) : Prop where
  generated : (Engine.generateClass ⟨0⟩ .base key).run (world plan) = .ok cls w
  keeps : World.Keeps (world plan).objects.next plan.descriptor.Matters w u
  instantiates : World.Instantiates ⟨0⟩ key cls obj u u'
  handle : u'.handleFor ⟨0⟩ key (.object obj) = .ok x
  inst : x.inst = ⟨0⟩
  grows : World.Grows ⟨0⟩ (world plan) u'

theorem hosts (plan : Puppet.Plan) : (world plan).Hosts ⟨0⟩ .base :=
  ⟨⟨0⟩, { registry := .base }, rfl, rfl, nofun⟩

theorem made (plan : Puppet.Plan) : ∃ cls obj w u u' x, Made plan cls obj w u u' x := by
  have hconstants : Registry.base.ConvertsConstants :=
    Registry.KeepsBuiltin.convertsConstants fun _ _ => rfl
  obtain ⟨cls, w, hgen, -⟩ := Engine.gives_generateClass hconstants (world plan) ⟨0⟩ key
  obtain ⟨obj, u', hwrap, hgrows, o, hid, x, ho, hc, -, ha, hx, hcls, hinst⟩ :=
    Engine.gives_wrapInstance (Session.runner 1) hconstants (hosts plan) key ⟨0⟩
  let u : World := { w with installations := w.installations.modify 0 fun i =>
    { i with classes := i.classes ++ [(key, cls)] } }
  have hclass : (Engine.classOf ⟨0⟩ key).run (world plan) = .ok cls u := by
    have hb : (world plan).bridge? ⟨0⟩ = some (⟨0⟩, { registry := .base }) := rfl
    rw [Engine.classOf, Engine.run_bind_of_ok (Engine.run_bridge hb)]
    exact Engine.run_bind_of_ok hgen
  have hhandle := World.handleFor_of_bound ho hc ha hx
  rw [hcls] at hhandle
  exact ⟨cls, obj, w, u, u', x, hgen, ⟨(World.Keeps.refl _ _ w).untouched, rfl⟩,
    .wrapped hclass hwrap, hhandle, hinst, hgrows⟩

/-- A radio can be tuned, and tells so. -/
def radio : Puppet.Plan where
  descriptor := ({ name := "Radio" } : TypeDescriptor)
    |>.method "tune" [.int] .void
    |>.static "stations" [] .int
    |>.event "tuned" [.int]
    |>.property "volume" .int
    |>.constant "loudest" (.int 11)

end Workshop

/-- The class of radios serves, and a radio answers. -/
theorem generateClass_serves_radio : ∃ cls obj w u u' x,
    Workshop.Made Workshop.radio cls obj w u u' x ∧
    World.Serves w ⟨0⟩ .base Workshop.key cls ∧ World.Answers u' ⟨0⟩ Workshop.key obj x := by
  obtain ⟨cls, obj, w, u, u', x, h⟩ := Workshop.made Workshop.radio
  obtain ⟨hserves, hinstances⟩ :=
    Engine.generateClass_serves h.generated (d := Workshop.radio.descriptor) rfl (by decide)
  obtain ⟨hkeeps, -, hanswers⟩ := hinstances u obj u' h.keeps h.instantiates
  exact ⟨cls, obj, w, u, u', x, h, hserves w (.refl _ _ w),
    hanswers u' x hkeeps (.refl _ _ u') h.handle⟩

namespace Workshop

open Engine

/-- Its only method has the name of the channels. -/
def switch : Puppet.Plan where
  descriptor := ({ name := "Switch" } : TypeDescriptor)
    |>.method "on" [] .void
    |>.event "switched" [.bool]
  behaviours := [some (.returns .void)]

/-- Its constant has the name of the prototype. -/
def printer : Puppet.Plan where
  descriptor := ({ name := "Printer" } : TypeDescriptor)
    |>.method "print" [] .void
    |>.constant "prototype" (.bool true)
  behaviours := [some (.returns .void)]

/-- Its property has the name of the channels. -/
def lamp : Puppet.Plan where
  descriptor := ({ name := "Lamp" } : TypeDescriptor)
    |>.property "on" .bool
    |>.event "switched" [.bool]

variable {plan : Puppet.Plan} {cls obj : ObjectId} {w u u' : World} {x : Handle}

/-- The instance answers, if the names differ. -/
theorem Made.answers (h : Made plan cls obj w u u' x) (hn : plan.descriptor.names.Nodup) :
    u'.plans.descriptor key = plan.descriptor ∧ u'.Answers ⟨0⟩ key obj x := by
  obtain ⟨proto, hg⟩ := World.generated h.generated (d := plan.descriptor) rfl
  obtain ⟨v, _, _, -, hi, hv⟩ := (hg u h.keeps).instantiated h.instantiates
  have hg' := hg u' (h.keeps.older hi.older hi.plans)
  have hinstance := hi.isInstance (.refl _ _ u') (hg u h.keeps) hv
  exact ⟨hg'.descriptor, hinstance.answers hg' hn h.handle⟩

/-- The instance of the printer's class has no prototype. -/
theorem Made.lookup_print (h : Made printer cls obj w u u' x) :
    (∃ o, u'.object? obj = some o ∧ o.context = ⟨0⟩ ∧ o.items? = none) ∧
      u'.lookup obj "print" = none := by
  obtain ⟨proto, hg⟩ := World.generated h.generated (d := printer.descriptor) rfl
  have hgu := hg u h.keeps
  obtain ⟨v, _, _, hl, hi, -⟩ := hgu.instantiated h.instantiates
  -- The prototype of the class is the constant.
  have hv : v = .bool true := by
    obtain ⟨encoder, c, hencoder, hrun, hget⟩ := (hgu.serves (by decide)).constant
      ("prototype", .bool true) (by rw [hgu.descriptor]; exact List.mem_singleton_self _)
    cases hencoder
    cases hrun
    obtain ⟨_, -, ht⟩ := hgu.tables
    obtain ⟨o, ho, hc, hk, -⟩ := ht.ofClass
    have hitems : o.items? = none := by
      rw [Object.items?, hk]
    cases (hget 0).symm.trans (run_getProperty_data _ ho hc hitems hl)
    rfl
  subst hv
  obtain ⟨o, ho, hc, hk, hp, hown⟩ := hi.table
  refine ⟨⟨o, ho, hc, by rw [Object.items?, hk]⟩, ?_⟩
  have hnone : o.own? "print" = none := hown "print" trivial
  rw [World.lookup, ho]
  simp only [hnone, hp, ForeignValue.asObject?]

/-- What the native method of a plan gives that returns nothing. -/
theorem Made.run_native (h : Made plan cls obj w u u' x)
    (hb : plan.behaviours = [some (.returns .void)]) {m : MethodDescriptor}
    (hm : m.parameters = [] ∧ m.returns = .void) (refs : List Ref) :
    (arguments ⟨0⟩ m [] >>= fun natives => invoke x.inst 0 natives >>=
      finish (Session.runner 0) ⟨0⟩ m).run (u'.holding refs) = .ok .undefined (u'.holding refs) := by
  obtain ⟨id, i, hbridge, -⟩ := h.grows.hosts (hosts plan)
  have hbridge' : (u'.holding refs).bridge? ⟨0⟩ = some (id, i) := hbridge
  have harguments : (arguments ⟨0⟩ m []).run (u'.holding refs) = .ok [] (u'.holding refs) := by
    rw [arguments, MethodDescriptor.arity, hm.1, if_neg (by simp)]
    exact (run_bind_of_ok (run_registry hbridge')).trans rfl
  have hinstance : (u'.holding refs).instance? x.inst = some (.puppet (Fin.last 2) [] ⟨0⟩) := by
    change u'.instances.get? x.inst.index = _
    rw [h.inst, h.grows.instances]
    rfl
  have hplans : (u'.holding refs).plans = ⟨fun _ => plan⟩ := h.grows.plans
  have hinvoke : (invoke x.inst 0 []).run (u'.holding refs) =
      .ok (.ok .void) (u'.holding refs) := by
    rw [invoke, run_get_bind]
    dsimp only
    rw [hinstance]
    simp only [hplans, Puppet.Plan.behaviour?, hb]
    rfl
  rw [run_bind_of_ok harguments, run_bind_of_ok hinvoke, finish, resultToForeign, if_pos hm.2]
  rfl

end Workshop

/-- **That the names differ is not enough.**  A method called `on` does not run where there are events, a
method does not run if a constant is called `prototype`, and a property called `on` hides the channels. -/
theorem distinct_names_not_sufficient :
    (Workshop.switch.descriptor.names.Nodup ∧ ∃ cls obj w u u' x,
      Workshop.Made Workshop.switch cls obj w u u' x ∧ ∀ m refs,
        Workshop.switch.descriptor.methods[0]? = some m →
        (Engine.callMethod (Session.runner 1) ⟨0⟩ obj "on" []).run u' ≠
          (Engine.arguments ⟨0⟩ m [] >>= fun natives => Engine.invoke x.inst 0 natives >>=
            Engine.finish (Session.runner 0) ⟨0⟩ m).run (u'.holding refs)) ∧
    (Workshop.printer.descriptor.names.Nodup ∧ ∃ cls obj w u u' x,
      Workshop.Made Workshop.printer cls obj w u u' x ∧ ∀ m refs,
        Workshop.printer.descriptor.methods[0]? = some m →
        (Engine.callMethod (Session.runner 1) ⟨0⟩ obj "print" []).run u' ≠
          (Engine.arguments ⟨0⟩ m [] >>= fun natives => Engine.invoke x.inst 0 natives >>=
            Engine.finish (Session.runner 0) ⟨0⟩ m).run (u'.holding refs)) ∧
    Workshop.lamp.descriptor.names.Nodup ∧ ∃ cls obj w u u' x,
      Workshop.Made Workshop.lamp cls obj w u u' x ∧ ∀ v w',
        (Engine.callMethod (Session.runner 1) ⟨0⟩ obj "on" []).run u' ≠ .ok v w' := by
  refine ⟨⟨by decide, ?_⟩, ⟨by decide, ?_⟩, by decide, ?_⟩
  · obtain ⟨cls, obj, w, u, u', x, h⟩ := Workshop.made Workshop.switch
    refine ⟨cls, obj, w, u, u', x, h, fun m refs hm => ?_⟩
    cases hm
    obtain ⟨hd, hanswers⟩ := h.answers (by decide)
    obtain ⟨refs', hlist⟩ := hanswers.lists (by rw [hd]; rfl) (by rw [hd]; decide)
      (by rw [hd]; decide) 0
    rw [hlist, h.run_native rfl ⟨rfl, rfl⟩]
    exact nofun
  · obtain ⟨cls, obj, w, u, u', x, h⟩ := Workshop.made Workshop.printer
    refine ⟨cls, obj, w, u, u', x, h, fun m refs hm => ?_⟩
    cases hm
    obtain ⟨⟨o, ho, hc, hi⟩, hl⟩ := h.lookup_print
    rw [Engine.run_callMethod_missing _ ho hc hi hl, h.run_native rfl ⟨rfl, rfl⟩]
    exact nofun
  · obtain ⟨cls, obj, w, u, u', x, h⟩ := Workshop.made Workshop.lamp
    refine ⟨cls, obj, w, u, u', x, h, fun v w' hrun => ?_⟩
    obtain ⟨hd, hanswers⟩ := h.answers (by decide)
    have hread := hanswers.read 0 ⟨"on", .bool, true, true⟩ (by rw [hd]; rfl) 0
    -- The property is empty, so reading it throws, and there is nothing to call.
    have hempty : (Engine.readMember x.inst 0).run u' = .ok none u' := by
      have hinstance : u'.instance? x.inst = some (.puppet (Fin.last 2) [] ⟨0⟩) := by
        rw [World.instance?, h.inst, h.grows.instances]
        rfl
      rw [Engine.readMember, Engine.run_get_bind, hinstance]
      rfl
    rw [if_pos rfl, Engine.run_bind_of_ok hempty] at hread
    obtain ⟨f, w₁, hget, -⟩ := Engine.bind_ok hrun
    cases hread.symm.trans hget

end Isthmus
