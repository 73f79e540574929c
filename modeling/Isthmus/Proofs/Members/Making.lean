import Isthmus.Proofs.Members.Lookup

/-!
# Proofs/Members/Making — how an instance of a class is made

An object is added with the prototype that the class has, a handle of a native instance is connected and
bound to it, and the properties of the class are defined on it (`World.Instantiated`).  The constructor of
the class and the conversion of a native value do this alike (`World.Instantiates`).

`World.Generated.instantiated`: this is what comes of making an instance, and nothing that was there before
changes.
-/

namespace Isthmus

/-! ## Attaching -/

/-- **A handle is connected**: where there are events and the instance has a source of them, the handle has
a channel for each. -/
def World.Connected (w : World) (d : TypeDescriptor) (x : Handle) : Prop :=
  d.hasEvents = true → ∀ source, w.source x.inst = some source →
    ∃ ch c, x.channels = some ch ∧ w.channels? ch = some c ∧ c.source = source ∧
      c.indices = d.events.map (·.1) ∧ c.signatures = d.channels ClassKey.typeName

namespace Engine

open World

variable {u w w' : World} {cx : ContextId} {key : ClassKey} {cls obj : ObjectId} {hid : HandleId}
  {d : TypeDescriptor}

theorem run_createInstance (run : Runner) {o : Object} (ho : u.object? cls = some o)
    (hc : o.context = cx) (hi : o.items? = none) {v : ForeignValue} {writable enumerable own}
    (hl : u.lookup cls "prototype" = some (.data v writable enumerable, own)) (hv : u.Local cx v) :
    (createInstance run cx cls).run u = .ok ⟨u.objects.next⟩
      ((u.holding v.refs).adding { context := cx, prototype := v.asObject? }) := by
  rw [createInstance, run_bind_of_ok (run_getProperty_data run ho hc hi hl)]
  cases v with
  | object p =>
    obtain ⟨q, hq, hqc⟩ := hv p rfl
    have hq' : (u.holding (ForeignValue.object p).refs).object? p = some q := hq
    exact run_bind_of_ok (run_checkOwned hq' hqc)
  | _ => rfl

theorem connect_ok {source : SourceId} {ch : ChannelsId}
    (h : (connect cx d source).run w = .ok ch w') :
    ∃ nextConnection sources c, w' = { w with
      nextConnection, sources, channels := w.channels.insert c } ∧ ch = ⟨w.channels.next⟩ ∧
      c.source = source ∧ c.indices = d.events.map (·.1) ∧
      c.signatures = d.channels ClassKey.typeName ∧ c.subscribers = d.events.map fun _ => none := by
  rw [connect, run_get_bind] at h
  dsimp only at h
  cases hb : w.bridge? cx with
  | some b =>
    rw [hb] at h
    cases h
    exact ⟨_, _, _, rfl, rfl, rfl, rfl, rfl, rfl⟩
  | none =>
    -- The connection leads nowhere, and asking for the bridge stops.
    rw [hb] at h
    obtain ⟨_, w₁, hset, h⟩ := bind_ok h
    obtain ⟨b, _, hbridge, -⟩ := bind_ok h
    obtain ⟨-, hb'⟩ := bridge_ok hbridge
    cases hset
    exact absurd (hb.symm.trans hb') nofun

theorem checkOwned_ok (h : (checkOwned cx obj).run w = .ok () w') :
    w' = w ∧ ∃ o, w.object? obj = some o ∧ o.context = cx := by
  obtain ⟨o, w₁, ho, hcheck⟩ := bind_ok h
  obtain ⟨rfl, ho⟩ := object_ok ho
  split at hcheck
  · cases hcheck
  · next hc =>
    cases hcheck
    exact ⟨rfl, o, ho, not_not.1 hc⟩

theorem wrap_ok {a : Attachment} (h : (wrap cx obj a).run w = .ok () w') :
    (∃ o, w.object? obj = some o ∧ o.context = cx) ∧ w' = { w with
      objects := w.objects.modify obj.index ({ · with attachment := some a }) } := by
  obtain ⟨_, w₁, hc, hrest⟩ := bind_ok h
  obtain ⟨rfl, howned⟩ := checkOwned_ok hc
  obtain ⟨o, w₂, ho, hmodify⟩ := bind_ok hrest
  obtain ⟨rfl, -⟩ := object_ok ho
  split at hmodify
  · cases hmodify
  · cases hmodify
    exact ⟨howned, rfl⟩

theorem bindHandle_ok (h : (bindHandle cx hid obj).run w = .ok () w') :
    (∃ o, w.object? obj = some o ∧ o.context = cx) ∧ w' = { w with
      objects := w.objects.modify obj.index ({ · with attachment := some (.handle hid) })
      handles := w.handles.modify hid.index ({ · with state := .bound }) } := by
  rw [bindHandle, run_get_bind] at h
  split at h
  · dsimp only at h
    split at h
    · cases h
    split at h
    · cases h
    obtain ⟨o, w₁, ho, hrest⟩ := bind_ok h
    obtain ⟨rfl, -⟩ := object_ok ho
    split at hrest
    · cases hrest
    obtain ⟨_, w₂, hwrap, hmodify⟩ := bind_ok hrest
    obtain ⟨howned, rfl⟩ := wrap_ok hwrap
    cases hmodify
    exact ⟨howned, rfl⟩
  · cases h

/-- Attaching an object connects its handle, binds it, and then defines the properties. -/
theorem attach_ok {x : Handle} (hx : w.handle? hid = some x)
    (h : (attach cx key obj hid).run w = .ok () w') :
    ∃ w₁ x₁, w₁.objects = w.objects ∧ w₁.instances = w.instances ∧ w₁.plans = w.plans ∧
      w₁.handle? hid = some x₁ ∧ x₁.cls = x.cls ∧ x₁.inst = x.inst ∧ x₁.ownership = x.ownership ∧
      w₁.Connected (w.plans.descriptor key) x₁ ∧
      (do
        bindHandle cx hid obj
        defineAll cx obj (propertyDefinitions key (w.plans.descriptor key))).run w₁ =
          .ok () w' := by
  rw [attach, run_get_bind] at h
  dsimp only at h
  by_cases hevents : (w.plans.descriptor key).hasEvents
  · rw [if_pos hevents, hx] at h
    dsimp only at h
    rw [run_bind_of_ok (run_sourceOf x.inst w)] at h
    cases hs : w.source x.inst with
    | none =>
      rw [hs] at h
      exact ⟨w, x, rfl, rfl, rfl, hx, rfl, rfl, rfl, fun _ _ h' => (nomatch hs.symm.trans h'), h⟩
    | some source =>
      rw [hs] at h
      obtain ⟨ch, w₁, hconnect, h⟩ := bind_ok h
      obtain ⟨_, _, c, rfl, rfl, hcs, hci, hcn, -⟩ := connect_ok hconnect
      refine ⟨_, { x with channels := some ⟨w.channels.next⟩ }, ?_, ?_, ?_, ?_, rfl, rfl, rfl, ?_, h⟩
      · rfl
      · rfl
      · rfl
      · rw [World.handle?, Store.get?_modify, if_pos rfl,
          show w.handles.get? hid.index = some x from hx]
        rfl
      · intro _ source' hs'
        cases hs.symm.trans hs'
        refine ⟨_, c, rfl, ?_, hcs, hci, hcn⟩
        rw [World.channels?, Store.get?_insert, if_pos rfl]
  · rw [if_neg hevents] at h
    exact ⟨w, x, rfl, rfl, rfl, hx, rfl, rfl, rfl, fun h' => absurd h' hevents, h⟩

end Engine

namespace World

open Engine

variable {u w w' : World} {cx : ContextId} {key : ClassKey} {obj : ObjectId} {hid : HandleId}
  {d : TypeDescriptor} {prototype : Option ObjectId}

theorem handleFor_of_bound {o : Object} {x : Handle} (ho : w.object? obj = some o)
    (hc : o.context = cx) (ha : o.attachment = some (.handle hid)) (hx : w.handle? hid = some x) :
    w.handleFor cx x.cls (.object obj) = .ok x := by
  have hbound : w.boundHandle cx obj = .ok x := by
    rw [boundHandle, ho]
    dsimp only
    rw [if_neg (not_not.2 hc), ha]
    simp only [hx]
  change (w.boundHandle cx obj >>= fun h => _) = _
  rw [hbound]
  exact if_pos rfl

theorem Connected.mono {x x' : Handle} (h : w.Connected d x) (hx : x'.channels = x.channels)
    (hi : x'.inst = x.inst) (hw : w'.source x.inst = w.source x.inst)
    (hc : w'.channels = w.channels) : w'.Connected d x' := by
  intro hevents source hs
  rw [hi, hw] at hs
  obtain ⟨ch, c, hch, hfound, hrest⟩ := h hevents source hs
  refine ⟨ch, c, hx.trans hch, ?_, hrest⟩
  rw [World.channels?, hc]
  exact hfound

/-! ## Instances -/

/-- **The newest object is an instance**: it has the properties of its class and a connected handle, and
the objects that were there before are as they were. -/
structure Instantiated (cx : ContextId) (key : ClassKey) (d : TypeDescriptor)
    (prototype : Option ObjectId) (obj : ObjectId) (u w : World) : Prop where
  newest : obj.index = u.objects.next
  older : ∀ id : ObjectId, id.index < u.objects.next → w.object? id = u.object? id
  table : Table cx obj.index (fun _ => True) .ordinary prototype (fun _ => none)
    (Definition.latest? (fun _ => true) (propertyDefinitions key d)) w obj
  plans : w.plans = u.plans
  handle : ∃ x, w.handleFor cx key (.object obj) = .ok x ∧ w.Connected d x

/-- An object that was just added gets the properties of a class. -/
theorem gives_properties {objects : Store Object} {attachment : Option Attachment}
    (hw : w.objects = (objects.insert { context := cx, prototype }).modify objects.next
      ({ · with attachment })) (key : ClassKey) (d : TypeDescriptor) :
    Gives (defineAll cx ⟨objects.next⟩ (propertyDefinitions key d)) w fun _ w' =>
      (∀ id : ObjectId, id.index < objects.next → w'.object? id = objects.get? id.index) ∧
      Defined cx objects.next (fun _ => ⟨objects.next⟩) (propertyDefinitions key d) w w' := by
  let o : Object := { context := cx, prototype }
  let w₀ : World := { w with objects }
  have hnew : w.object? ⟨objects.next⟩ = some { o with attachment } := by
    rw [object?, hw, Store.get?_modify, if_pos rfl, Store.get?_insert, if_pos rfl]
    rfl
  have hb : Builds cx w₀ w := by
    have hinsert : Builds cx w₀ { w₀ with objects := objects.insert o } :=
      .inserting w₀ rfl rfl (by rintro items ⟨⟩)
    have hle : w₀.objects.next ≤ (⟨objects.next⟩ : ObjectId).index := Nat.le_refl _
    have hmodify := hinsert.modify hle (f := ({ · with attachment })) fun o' ho' => by
      have hyoung := hinsert.young _ o' ho' hle
      exact ⟨hyoung.context, hyoung.held, hyoung.nested⟩
    rw [← hw] at hmodify
    exact hmodify
  refine .step (run_checkOwned hnew rfl) ?_
  refine (hb.gives_defineEach (fun _ => ⟨objects.next⟩) fun e he => ?_).mono fun _ w' h =>
    ⟨h.1.object?, h.2⟩
  obtain ⟨p, -, rfl⟩ := List.mem_map.1 he
  exact ⟨Nat.le_refl _, ⟨_, hnew⟩, by rintro _ ⟨⟩⟩

/-- **A new handle is attached to the newest object**: in `v` it is connected and bound, and from there on only
the properties of the class are defined. -/
structure Attached (cx : ContextId) (key : ClassKey) (own : Ownership) (prototype : Option ObjectId)
    (u w v : World) (x : Handle) (w' : World) : Prop where
  plans : v.plans = w.plans
  connected : v.Connected (w.plans.descriptor key) x
  object : v.object? ⟨u.objects.next⟩ =
    some { context := cx, prototype, attachment := some (.handle ⟨w.handles.next⟩) }
  handle : v.handle? ⟨w.handles.next⟩ = some x
  cls : x.cls = key
  state : x.state = .bound
  ownership : x.ownership = own
  older : ∀ id : ObjectId, id.index < u.objects.next → w'.object? id = u.object? id
  defined : Defined cx u.objects.next (fun _ => ⟨u.objects.next⟩)
    (propertyDefinitions key (w.plans.descriptor key)) v w'

theorem attached {own : Ownership} {inst : InstanceId}
    (h : (do
      let h ← createHandle key inst own
      attach cx key ⟨u.objects.next⟩ h).run w = .ok () w')
    (ho : w.objects = u.objects.insert { context := cx, prototype }) :
    ∃ v x, Attached cx key own prototype u w v x w' := by
  let x : Handle := { cls := key, inst, ownership := own }
  have hcreate : (createHandle key inst own).run w = .ok ⟨w.handles.next⟩
    { w with handles := w.handles.insert x } := rfl
  rw [run_bind_of_ok hcreate] at h
  have hx : { w with handles := w.handles.insert x }.handle? ⟨w.handles.next⟩ = some x := by
    rw [handle?, Store.get?_insert, if_pos rfl]
  obtain ⟨w₁, x₁, ho₁, hi₁, hp₁, hx₁, hcls, hinst, hown, hconnected, h⟩ := attach_ok hx h
  obtain ⟨_, w₂, hbind, hdefine⟩ := bind_ok h
  obtain ⟨-, rfl⟩ := bindHandle_ok hbind
  let w₂ : World := { w₁ with
    objects := w₁.objects.modify u.objects.next
      ({ · with attachment := some (.handle ⟨w.handles.next⟩) })
    handles := w₁.handles.modify w.handles.next ({ · with state := .bound }) }
  have ho₂ : w₂.objects = (u.objects.insert { context := cx, prototype }).modify u.objects.next
      ({ · with attachment := some (.handle ⟨w.handles.next⟩) }) := by
    rw [← ho, ← ho₁]
  obtain ⟨holder, hdefined⟩ := (gives_properties ho₂ key _).holds hdefine
  have hnew : w₂.object? ⟨u.objects.next⟩ = some
      { context := cx, prototype, attachment := some (.handle ⟨w.handles.next⟩) } := by
    rw [object?, ho₂, Store.get?_modify, if_pos rfl, Store.get?_insert, if_pos rfl]
    rfl
  have hbound : w₂.handle? ⟨w.handles.next⟩ = some { x₁ with state := .bound } := by
    rw [handle?, Store.get?_modify, if_pos rfl,
      show w₁.handles.get? w.handles.next = some x₁ from hx₁]
    rfl
  have hconnected' : w₂.Connected (w.plans.descriptor key) { x₁ with state := .bound } :=
    hconnected.mono rfl rfl rfl rfl
  exact ⟨w₂, _, hp₁, hconnected', hnew, hbound, hcls, rfl, hown, holder, hdefined⟩

/-- An object that was just added becomes an instance. -/
theorem instantiated {own : Ownership} {inst : InstanceId}
    (h : (do
      let h ← createHandle key inst own
      attach cx key ⟨u.objects.next⟩ h).run w = .ok () w')
    (ho : w.objects = u.objects.insert { context := cx, prototype }) (hp : w.plans = u.plans)
    (hd : u.plans.descriptor key = d) :
    Instantiated cx key d prototype ⟨u.objects.next⟩ u w' := by
  obtain ⟨v, x, ha⟩ := attached h ho
  have hd' : w.plans.descriptor key = d := by
    rw [hp, hd]
  have hconnected := ha.connected
  have hdefined := ha.defined
  rw [hd'] at hconnected hdefined
  -- Defining the properties changes neither the handles nor the channels.
  obtain ⟨objects, held, rfl⟩ := hdefined.frame
  obtain ⟨o, ho', hc, -, -, hatt, -⟩ := hdefined.object _ _ ha.object
  have hhandle := handleFor_of_bound ho' hc hatt ha.handle
  refine ⟨rfl, ha.older, ?_, ha.plans.trans hp, _, ha.cls ▸ hhandle, ?_⟩
  · have htable : Table cx u.objects.next (fun _ => True) .ordinary prototype (fun _ => none)
        (fun _ => none) v ⟨u.objects.next⟩ := ⟨_, ha.object, rfl, rfl, rfl, fun _ _ => rfl⟩
    have htable' := htable.defined hdefined
    simpa only [decide_true, Option.or_none] using htable'
  · exact hconnected.mono rfl rfl rfl rfl

/-- **An instance of a class is made** from the world in which the class is there: by its constructor, or as
the foreign side of a native instance. -/
inductive Instantiates (cx : ContextId) (key : ClassKey) (cls obj : ObjectId) (u w : World) : Prop where
  | constructed {n args}
      (h : (construct (Session.runner n) cx (.object cls) args).run u = .ok (.object obj) w)
  | wrapped {n inst u₀} (hc : (classOf cx key).run u₀ = .ok cls u)
      (h : (wrapInstance (Session.runner n) cx key inst).run u₀ = .ok obj w)

/-- The constructor of a generated class attaches the exclusive handle of a new instance to its receiver. -/
theorem attach_of_constructMember {info : CallInfo} {v : ForeignValue}
    (h : (constructMember cx key info).run w = .ok v w') (hr : info.receiver = .object obj)
    (hn : info.isConstructCall = true) :
    v = .undefined ∧ ∃ w₁ inst, w₁.objects = w.objects ∧ w₁.plans = w.plans ∧ (do
      let h ← createHandle key inst .exclusive
      attach cx key obj h).run w₁ = .ok () w' := by
  rw [constructMember, run_get_bind, hr] at h
  dsimp only at h
  rw [hn, Bool.not_true, if_neg Bool.false_ne_true] at h
  obtain ⟨inst, w₁, hdefault, hrest⟩ := bind_ok h
  have hstocked : Stocked w ((createDefault key).after w) := Conserves.createDefault w
  rw [after_of_ok hdefault] at hstocked
  obtain ⟨_, _, _, rfl⟩ := hstocked
  obtain ⟨hid, w₂, hcreate, hrest⟩ := bind_ok hrest
  obtain ⟨_, w₃, hattach, hreturn⟩ := bind_ok hrest
  cases hreturn
  refine ⟨rfl, _, inst, ?_, ?_, (run_bind_of_ok hcreate).trans hattach⟩
  · rfl
  · rfl

/-- What the constructor of a generated class does to its receiver. -/
theorem instantiated_of_constructMember {info : CallInfo} {v : ForeignValue}
    (h : (constructMember cx key info).run w = .ok v w')
    (hw : w.objects = u.objects.insert { context := cx, prototype }) (hp : w.plans = u.plans)
    (hd : u.plans.descriptor key = d) (hr : info.receiver = .object ⟨u.objects.next⟩)
    (hn : info.isConstructCall = true) :
    v = .undefined ∧ Instantiated cx key d prototype ⟨u.objects.next⟩ u w' := by
  obtain ⟨rfl, w₁, inst, hobjects, hplans, hattach⟩ := attach_of_constructMember h hr hn
  exact ⟨rfl, instantiated hattach (hobjects.trans hw) (hplans.trans hp) hd⟩

/-- **An instance that is made** has the prototype that its class has. -/
theorem Generated.instantiated {r : Registry} {cls proto : ObjectId} {since : Nat}
    (hg : Generated cx r key d cls proto since u) (h : Instantiates cx key cls obj u w) :
    ∃ v writable enumerable,
      u.lookup cls "prototype" = some (.data v writable enumerable, true) ∧
      Instantiated cx key d v.asObject? obj u w ∧ (¬ d.TakesPrototype → v = .object proto) := by
  obtain ⟨constants, hc, ht⟩ := hg.tables
  obtain ⟨v, writable, enumerable, hl, hv, hproto⟩ :=
    ht.lookup_prototype (.inr (.inr rfl)) (isPlain_members key d (isPlain_constants hc))
  obtain ⟨o, ho, hcx, hk, -⟩ := ht.ofClass
  have hi : o.items? = none := by
    rw [Object.items?, hk]
  have hcreate (run : Runner) := run_createInstance run ho hcx hi hl hv
  refine ⟨v, writable, enumerable, hl, ?_, fun hp => hproto (Definition.latest?_prototype hc hp)⟩
  cases h with
  | @constructed n args h =>
    rw [construct, run_bind_of_ok (run_callable ho hk)] at h
    dsimp only at h
    rw [run_bind_of_ok (run_checkOwned ho hcx), run_bind_of_ok (hcreate _)] at h
    obtain ⟨result, w₂, hcall, hrest⟩ := bind_ok h
    cases n with
    | zero => cases hcall
    | succ n =>
      obtain ⟨rfl, hmade⟩ :=
        instantiated_of_constructMember (u := u) hcall rfl rfl hg.descriptor rfl rfl
      cases hrest
      exact hmade
  | @wrapped n inst u₀ hclass h =>
    rw [wrapInstance, run_bind_of_ok hclass, run_bind_of_ok (hcreate _)] at h
    obtain ⟨hid, w₂, hhandle, hrest⟩ := bind_ok h
    obtain ⟨_, w₃, hattach, hreturn⟩ := bind_ok hrest
    cases hreturn
    exact World.instantiated ((run_bind_of_ok hhandle).trans hattach) rfl rfl hg.descriptor

end World

end Isthmus
