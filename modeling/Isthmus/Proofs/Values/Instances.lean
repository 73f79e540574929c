import Isthmus.Proofs.Run.Definitions
import Isthmus.Engine.Call

/-!
# Proofs/Values/Instances — native instances on the foreign side

On a context whose bridge converts the constants of classes and whose classes have their prototypes, an
instance always gets a foreign object: its class is generated if need be, and an object with a handle of
the instance is made (`Engine.gives_wrapInstance`).  The world only grows.
-/

namespace Isthmus

/-- The built-in types convert as they do by default. -/
def Registry.KeepsBuiltin (r : Registry) : Prop :=
  ∀ t : TypeId, t.isBuiltin → r.encoder? t = base.encoder? t

/-- The constants of classes have conversions that do not throw. -/
def Registry.ConvertsConstants (r : Registry) : Prop :=
  ∀ c : Constant, ∃ e, r.encoder? c.toNative.typeId = some e ∧ e ≠ .refusal

theorem Registry.KeepsBuiltin.convertsConstants {r : Registry} (h : r.KeepsBuiltin) :
    r.ConvertsConstants := by
  intro c
  cases c <;> exact ⟨_, h _ rfl, nofun⟩

namespace World

variable {w w' : World} {cx : ContextId} {r : Registry}

/-- The event source of an instance. -/
def source (w : World) (inst : InstanceId) : Option SourceId :=
  match w.instance? inst with
  | some (.ticker _ source) => some source
  | some (.puppet i _ source) => if (w.plans.plan i).hasSource then some source else none
  | _ => none

/-- The context has a bridge with a registry, whose classes have their prototypes. -/
def Hosts (w : World) (cx : ContextId) (r : Registry) : Prop :=
  ∃ id i, w.bridge? cx = some (id, i) ∧ i.registry = r ∧ ∀ e ∈ i.classes, w.IsClass cx e.2

theorem Grows.hosts (h : Grows cx w w') (hw : w.Hosts cx r) : w'.Hosts cx r := by
  obtain ⟨id, i, hb, hr, hc⟩ := hw
  obtain ⟨hd, hi⟩ := bridge?_eq_some.1 hb
  obtain ⟨more, hi', hmore⟩ := h.installation? id i hi
  refine ⟨id, _, bridge?_eq_some.2 ⟨?_, hi'⟩, hr, fun e he => ?_⟩
  · rw [data?, context?, h.contexts]
    exact hd
  · obtain he | he := List.mem_append.1 he
    · exact h.isClass (hc e he)
    · exact hmore e he

/-- A class is added to the bridge. -/
theorem Grows.keepClass (id : InstallationId) (e : ClassKey × ObjectId) (he : w.IsClass cx e.2) :
    Grows cx w { w with
      installations := w.installations.modify id.index fun i =>
        { i with classes := i.classes ++ [e] } } := by
  refine { (Builds.refl w : Builds cx w w) with
    young := fun id' o ho hle => absurd (object?_lt ho) (Nat.not_lt.2 hle)
    installation? := fun id' i hi => ?_ }
  have he' : { w with
      installations := w.installations.modify id.index fun i =>
        { i with classes := i.classes ++ [e] } }.IsClass cx e.2 := he.congr fun _ _ => rfl
  rw [installation?_modify (f := fun i => { i with classes := i.classes ++ [e] }) rfl hi]
  by_cases h : id' = id
  · refine ⟨[e], by rw [if_pos h], fun e' hmem => ?_⟩
    cases List.mem_singleton.1 hmem
    exact he'
  · exact ⟨[], by rw [if_neg h, List.append_nil], by simp⟩

/-- An object of the context stands for a native instance. -/
def Wraps (w : World) (cx : ContextId) (obj : ObjectId) (cls : ClassKey) (inst : InstanceId) : Prop :=
  ∃ o h x, w.object? obj = some o ∧ o.context = cx ∧ o.kind = .ordinary ∧
    o.attachment = some (.handle h) ∧ w.handle? h = some x ∧ x.cls = cls ∧ x.inst = inst

theorem Grows.wraps (h : Grows cx w w') {obj cls inst} (hw : w.Wraps cx obj cls inst) :
    w'.Wraps cx obj cls inst := by
  obtain ⟨o, handle, x, ho, hc, hk, ha, hx, hcls, hinst⟩ := hw
  exact ⟨o, handle, x, h.object ho, hc, hk, ha, h.handle hx, hcls, hinst⟩

end World

namespace Engine

variable {w : World} {cx : ContextId} {r : Registry} (run : Runner)

/-! ## Classes -/

/-- Only one of the plain conversions throws. -/
theorem exists_run_encodePlain (w : World) (cx : ContextId) (limit : Nat) {e : Encoder}
    (he : e ≠ .refusal) (v : NativeValue) : ∃ f w', (encodePlain cx limit e v).run w = .ok f w' := by
  rw [encodePlain.eq_def]
  split
  case h_5 =>
    split
    · exact ⟨_, _, rfl⟩
    · exact ⟨_, _, rfl⟩
  case h_8 => exact absurd rfl he
  all_goals exact ⟨_, _, rfl⟩

/-- A constant converts, and the world stays as it is. -/
theorem gives_constantDefinition (hr : r.ConvertsConstants) (w : World) (cx : ContextId)
    (d : TypeDescriptor) (name : String) (c : Constant) :
    Gives (constantDefinition cx r d name c) w fun def' w' => w' = w ∧ def'.IsPlain := by
  obtain ⟨e, he, hplain⟩ := hr c
  obtain ⟨f, w', hf⟩ := exists_run_encodePlain w cx r.maxBufferLength hplain c.toNative
  have hattempt := run_attempt (encodePlain cx r.maxBufferLength e c.toNative) w
  rw [hf] at hattempt
  have hrun : (constantDefinition cx r d name c).run w =
      .ok { name, member := .value f, isStatic := true, readOnly := true } w' := by
    rw [constantDefinition, he]
    exact run_bind_of_ok hattempt
  obtain ⟨rfl, h⟩ := constantDefinition_ok hrun
  exact .intro hrun ⟨rfl, h.isPlain⟩

theorem gives_mapM {α β : Type} {f : α → Engine β} {P : β → Prop} {l : List α} {w : World}
    (hf : ∀ a ∈ l, Gives (f a) w fun b w' => w' = w ∧ P b) :
    Gives (l.mapM f) w fun bs w' => w' = w ∧ ∀ b ∈ bs, P b := by
  induction l with
  | nil => exact .pure ⟨rfl, by simp⟩
  | cons a l ih =>
    rw [List.mapM_cons]
    obtain ⟨b, _, hb, rfl, hp⟩ := hf a (List.mem_cons_self ..)
    obtain ⟨bs, _, hbs, rfl, hall⟩ := ih fun a ha => hf a (List.mem_cons_of_mem _ ha)
    exact .step hb (.step hbs (.pure ⟨rfl, List.forall_mem_cons.2 ⟨hp, hall⟩⟩))

theorem gives_generateClass (hr : r.ConvertsConstants) (w : World) (cx : ContextId) (key : ClassKey) :
    Gives (generateClass cx r key) w fun cls w' => World.Builds cx w w' ∧ w'.IsClass cx cls := by
  refine .get ?_
  obtain ⟨constants, _, hm, rfl, hplain⟩ := gives_mapM (w := w) (P := Definition.IsPlain)
    (l := (w.plans.descriptor key).constants)
    fun e _ => gives_constantDefinition hr w cx (w.plans.descriptor key) e.1 e.2
  exact .step hm (gives_members _ cx key _ hplain)

/-- **A context always has a class** for its native ones, generated if need be. -/
theorem gives_classOf (hr : r.ConvertsConstants) (hw : w.Hosts cx r) (key : ClassKey) :
    Gives (classOf cx key) w fun cls w' => World.Grows cx w w' ∧ w'.IsClass cx cls := by
  obtain ⟨id, i, hb, rfl, hc⟩ := hw
  refine .step (run_bridge hb) ?_
  dsimp only
  cases hf : i.classes.find? (·.1 = key) with
  | some e =>
    have hheld : World.Builds cx w (w.holding [.object e.2]) := .holding w _
    refine .step (run_hold [.object e.2]) (.pure ⟨hheld.toGrows, ?_⟩)
    exact hheld.isClass (hc e (List.mem_of_find?_eq_some hf))
  | none =>
    refine .bind (gives_generateClass hr w cx key) fun cls w' h => ?_
    have hkeep : World.Grows cx w' { w' with
        installations := w'.installations.modify id.index fun i =>
          { i with classes := i.classes ++ [(key, cls)] } } := .keepClass id (key, cls) h.2
    exact .step rfl (.pure ⟨h.1.toGrows.trans hkeep, hkeep.isClass h.2⟩)

/-! ## Objects -/

/-- Reading a property that has a getter runs it. -/
theorem run_getProperty_getter {id : ObjectId} {o} (ho : w.object? id = some o) (hc : o.context = cx)
    (hi : o.items? = none) {name getter setter data enumerable own}
    (hl : w.lookup id name = some (.accessor (some getter) setter data enumerable, own)) :
    (getProperty run cx id name).run w =
      (run.call cx getter.callback { receiver := .object id, data }).run w := by
  have ha : arrayAnswer? o name = none := by
    rw [arrayAnswer?, hi]
    rfl
  rw [getProperty, run_bind_of_ok (run_checkOwned ho hc), run_bind_of_ok (run_object ho), ha,
    run_get_bind, hl]

/-- Reading the prototype of a class runs no code. -/
theorem gives_prototype {cls : ObjectId} (hc : w.IsClass cx cls) :
    Gives (getProperty run cx cls "prototype") w fun v w' =>
      World.Builds cx w w' ∧ w'.Local cx v := by
  obtain ⟨⟨o, ho, hcx, hf⟩, hplain⟩ := hc
  have hitems : o.items? = none := by
    rw [Object.isFunction, Object.function?] at hf
    rw [Object.items?]
    split at hf
    · next hk => rw [hk]
    · cases hf
  have hanswer : arrayAnswer? o "prototype" = none := by
    rw [arrayAnswer?, hitems]
    rfl
  refine .step (run_checkOwned ho hcx) (.step (run_object ho) ?_)
  rw [hanswer]
  refine .get ?_
  cases hl : w.lookup cls "prototype" with
  | none => exact .pure ⟨.refl w, .of_plain rfl⟩
  | some e =>
    obtain ⟨setter, data, enumerable, hp⟩ | ⟨v, writable, enumerable, hp, hv⟩ := hplain e.1 e.2 hl
    · obtain ⟨p, own⟩ := e
      cases hp
      exact .pure ⟨.refl w, .of_plain rfl⟩
    · obtain ⟨p, own⟩ := e
      cases hp
      have hheld : World.Builds cx w (w.holding v.refs) := .holding w _
      exact .step (run_hold v.refs) (.pure ⟨hheld, hheld.localValue hv⟩)

/-- An object with the prototype of a class is made. -/
theorem gives_createInstance {cls : ObjectId} (hc : w.IsClass cx cls) :
    Gives (createInstance run cx cls) w fun obj w' => World.Builds cx w w' ∧
      w.objects.next ≤ obj.index ∧
      ∃ o, w'.object? obj = some o ∧ o.context = cx ∧ o.kind = .ordinary ∧ o.attachment = none := by
  refine .bind (gives_prototype run hc) fun v w₁ h => ?_
  obtain ⟨hb, hlocal⟩ := h
  have hadd (proto : Option ObjectId) :
      Gives (allocate { context := cx, prototype := proto }) w₁ fun obj w' =>
        World.Builds cx w w' ∧ w.objects.next ≤ obj.index ∧
        ∃ o, w'.object? obj = some o ∧ o.context = cx ∧ o.kind = .ordinary ∧ o.attachment = none :=
    .intro (run_allocate _) ⟨hb.trans (.adding w₁ rfl rfl (by rintro items ⟨⟩)), hb.objects_next,
      _, World.object?_adding w₁ _, rfl, rfl, rfl⟩
  cases v with
  | object p =>
    obtain ⟨o, ho, hcx⟩ := hlocal p rfl
    exact Gives.step (m := checkOwned cx p) (run_checkOwned ho hcx) (hadd (some p))
  | _ => exact hadd none

end Engine

/-! ## An object and a handle -/

namespace World

variable {w₀ w : World} {cx : ContextId} {obj : ObjectId} {h : HandleId} {cls : ClassKey}
  {inst : InstanceId}

/-- A handle that was added changes. -/
theorem Builds.modifyHandle (hb : Builds cx w₀ w) (hid : w₀.handles.next ≤ h.index)
    (f : Handle → Handle) : Builds cx w₀ { w with handles := w.handles.modify h.index f } where
  objects_next := hb.objects_next
  object? := hb.object?
  young id o ho hle := (hb.young id o ho hle).mono (List.Subset.refl _)
  handles_next := hb.handles_next
  handle? id hlt := by
    rw [World.handle?, Store.get?_modify, if_neg (by omega)]
    exact hb.handle? id hlt
  held := hb.held
  instances := hb.instances
  contexts := hb.contexts
  plans := hb.plans
  deferreds := hb.deferreds
  loops := hb.loops
  installation? := Grows.installation?_of_eq hb.installations
  installations := hb.installations

/-- A handle is added. -/
theorem Builds.addHandle (w : World) (x : Handle) :
    Builds cx w { w with handles := w.handles.insert x } where
  objects_next := Nat.le_refl _
  object? _ _ := rfl
  young id o ho hle := absurd (object?_lt ho) (Nat.not_lt.2 hle)
  handles_next := Nat.le_succ _
  handle? id hlt := by
    rw [World.handle?, World.handle?, Store.get?_insert, if_neg (Nat.ne_of_lt hlt)]
  held := List.Subset.refl _
  instances := rfl
  contexts := rfl
  plans := rfl
  deferreds := rfl
  loops := rfl
  installation? := Grows.installation?_of_eq rfl
  installations := rfl

/-- An object and a handle of an instance that were added since the world `w₀`, before and after they are
bound to each other. -/
structure Pairs (cx : ContextId) (w₀ w : World) (obj : ObjectId) (h : HandleId) (cls : ClassKey)
    (inst : InstanceId) (bound : Bool) : Prop extends toBuilds : Builds cx w₀ w where
  object_le : w₀.objects.next ≤ obj.index
  handle_le : w₀.handles.next ≤ h.index
  object_is : ∃ o, w.object? obj = some o ∧ o.context = cx ∧ o.kind = .ordinary ∧
    o.attachment = if bound then some (.handle h) else none
  handle_is : ∃ x, w.handle? h = some x ∧ x.cls = cls ∧ x.inst = inst ∧ x.ownership = .shared ∧
    x.state = if bound then .bound else .unbound

namespace Pairs

variable {bound : Bool}

theorem grow {w' : World} (hp : Pairs cx w₀ w obj h cls inst bound) (hb : Builds cx w w') :
    Pairs cx w₀ w' obj h cls inst bound := by
  obtain ⟨o, ho, hrest⟩ := hp.object_is
  obtain ⟨x, hx, hrest'⟩ := hp.handle_is
  exact ⟨hp.toBuilds.trans hb, hp.object_le, hp.handle_le, ⟨o, hb.object ho, hrest⟩,
    ⟨x, hb.handle hx, hrest'⟩⟩

/-- The handle gets event channels. -/
theorem connected (hp : Pairs cx w₀ w obj h cls inst bound) (channels : ChannelsId) :
    Pairs cx w₀ { w with
      handles := w.handles.modify h.index ({ · with channels := some channels }) }
      obj h cls inst bound := by
  obtain ⟨x, hx, hrest⟩ := hp.handle_is
  refine ⟨hp.toBuilds.modifyHandle hp.handle_le _, hp.object_le, hp.handle_le, hp.object_is,
    ⟨{ x with channels := some channels }, ?_, hrest⟩⟩
  rw [handle?, Store.get?_modify, if_pos rfl, show w.handles.get? h.index = some x from hx]
  rfl

/-- The object gets an accessor. -/
theorem gives_accessor (hp : Pairs cx w₀ w obj h cls inst bound) (d : Engine.Definition)
    {getter setter data} (hd : d.member = .accessor getter setter data) :
    Engine.Gives (Engine.define cx obj d) w fun _ w' => Pairs cx w₀ w' obj h cls inst bound := by
  obtain ⟨o, ho, hc, hk, ha⟩ := hp.object_is
  rw [Engine.define, hd]
  refine .intro (Engine.run_putOwn ho (hp.young obj o ho hp.object_le).held d.name _) ?_
  refine ⟨hp.putting hp.object_le _ (List.nil_subset _), hp.object_le, hp.handle_le, ?_,
    hp.handle_is⟩
  rw [object?_putting, if_pos rfl, ho]
  exact ⟨_, rfl, hc, hk, ha⟩

/-- They are bound to each other. -/
theorem gives_bindHandle (hp : Pairs cx w₀ w obj h cls inst false) :
    Engine.Gives (Engine.bindHandle cx h obj) w fun _ w' =>
      Pairs cx w₀ w' obj h cls inst true := by
  obtain ⟨o, ho, hc, hk, ha⟩ := hp.object_is
  obtain ⟨x, hx, hcls, hinst, hshared, hstate⟩ := hp.handle_is
  let attached (o : Object) : Object := { o with attachment := some (.handle h) }
  let bound (x : Handle) : Handle := { x with state := .bound }
  let w₁ : World := { w with objects := w.objects.modify obj.index attached }
  let w₂ : World := { w₁ with handles := w₁.handles.modify h.index bound }
  have hwrap : (Engine.wrap cx obj (.handle h)).run w = .ok () w₁ := by
    rw [Engine.wrap, Engine.run_bind_of_ok (Engine.run_checkOwned ho hc),
      Engine.run_bind_of_ok (Engine.run_object ho), ha]
    rfl
  have hrun : (Engine.bindHandle cx h obj).run w = .ok () w₂ := by
    rw [Engine.bindHandle, Engine.run_get_bind, hx]
    dsimp only
    rw [if_neg (by simp [hstate]), if_neg (by simp [hshared]),
      Engine.run_bind_of_ok (Engine.run_object ho), ha, if_neg (by simp),
      Engine.run_bind_of_ok hwrap]
    rfl
  have hbuilds₁ : Builds cx w₀ w₁ := hp.modify hp.object_le fun o' ho' => by
    have hy := hp.young obj o' ho' hp.object_le
    exact ⟨hy.context, hy.held, hy.nested⟩
  have hbuilds₂ : Builds cx w₀ w₂ := hbuilds₁.modifyHandle hp.handle_le bound
  refine .intro hrun ⟨hbuilds₂, hp.object_le, hp.handle_le, ⟨attached o, ?_, hc, hk, rfl⟩,
    ⟨bound x, ?_, hcls, hinst, hshared, rfl⟩⟩
  · rw [object?, Store.get?_modify, if_pos rfl, show w.objects.get? obj.index = some o from ho]
    rfl
  · rw [handle?, Store.get?_modify, if_pos rfl, show w.handles.get? h.index = some x from hx]
    rfl

end Pairs

end World

namespace Engine

open World

variable {w₀ w : World} {cx : ContextId} {r : Registry} {obj : ObjectId} {h : HandleId} {cls : ClassKey}
  {inst : InstanceId}

theorem run_sourceOf (inst : InstanceId) (w : World) :
    (sourceOf inst).run w = .ok (w.source inst) w := by
  rw [sourceOf, run_get_bind, World.source]
  cases w.instance? inst with
  | none => rfl
  | some i => cases i <;> rfl

theorem gives_connect {b} (hb : w.bridge? cx = some b) (d : TypeDescriptor) (source : SourceId) :
    Gives (connect cx d source) w fun _ w' => Builds cx w w' := by
  refine .get ?_
  obtain ⟨id, i⟩ := b
  simp only [hb]
  exact .intro rfl (.of_frame rfl rfl rfl (List.Subset.refl _) rfl rfl rfl rfl rfl)

/-- **An object becomes the foreign side** of an instance, with the events and the properties of its
class. -/
theorem gives_attach (hp : Pairs cx w₀ w obj h cls inst false) {b} (hb : w.bridge? cx = some b) :
    Gives (attach cx cls obj h) w fun _ w' => Pairs cx w₀ w' obj h cls inst true := by
  let d := w.plans.descriptor cls
  have hrest {w₁ : World} (hp : Pairs cx w₀ w₁ obj h cls inst false) :
      Gives (do bindHandle cx h obj; defineAll cx obj (propertyDefinitions cls d)) w₁ fun _ w' =>
        Pairs cx w₀ w' obj h cls inst true := by
    refine .bind hp.gives_bindHandle fun _ w₂ h₂ => ?_
    obtain ⟨o, ho, hc, -⟩ := h₂.object_is
    refine .step (run_checkOwned ho hc) (.forM h₂ fun e he w' hw' => ?_)
    obtain ⟨p, -, rfl⟩ := List.mem_map.1 he
    exact hw'.gives_accessor _ rfl
  refine .get ?_
  dsimp only
  by_cases hevents : d.hasEvents
  · rw [if_pos hevents]
    obtain ⟨x, hx, -⟩ := hp.handle_is
    rw [hx]
    refine .step (run_sourceOf x.inst w) ?_
    cases w.source x.inst with
    | none => exact hrest hp
    | some source =>
      refine .bind (gives_connect hb d source) fun channels w₁ h₁ => ?_
      exact .step rfl (hrest ((hp.grow h₁).connected channels))
  · rw [if_neg hevents]
    exact hrest hp

/-- An object of a class becomes the foreign side of an instance. -/
theorem gives_wrapped (run : Runner) (hw : w.Hosts cx r) {c : ObjectId} (hc : w.IsClass cx c)
    (cls : ClassKey) (inst : InstanceId) :
    Gives (do
      let obj ← createInstance run cx c
      let h ← createHandle cls inst .shared
      attach cx cls obj h
      return obj) w fun obj w' => Grows cx w w' ∧ w'.Wraps cx obj cls inst := by
  refine .bind (gives_createInstance run hc) fun obj w₂ h₂ => ?_
  obtain ⟨hb₂, hle, o, ho, hcx, hk, ha⟩ := h₂
  let x : Handle := { cls, inst, ownership := .shared }
  let w₃ : World := { w₂ with handles := w₂.handles.insert x }
  have hb₃ : Builds cx w₂ w₃ := .addHandle w₂ x
  have hx : w₃.handle? ⟨w₂.handles.next⟩ = some x := by
    rw [World.handle?, Store.get?_insert, if_pos rfl]
  have hp : Pairs cx w w₃ obj ⟨w₂.handles.next⟩ cls inst false :=
    ⟨hb₂.trans hb₃, hle, hb₂.handles_next, ⟨o, hb₃.object ho, hcx, hk, ha⟩,
      ⟨x, hx, rfl, rfl, rfl, rfl⟩⟩
  obtain ⟨id, i, hbridge, -⟩ := hp.toGrows.hosts hw
  have hcreate : (createHandle cls inst .shared).run w₂ = .ok ⟨w₂.handles.next⟩ w₃ := rfl
  refine .step hcreate (.bind (gives_attach hp hbridge) fun _ w₄ h₄ => ?_)
  obtain ⟨o', ho', hcx', hk', ha'⟩ := h₄.object_is
  obtain ⟨x', hx', hcls, hinst, -⟩ := h₄.handle_is
  exact .pure ⟨h₄.toGrows, o', _, x', ho', hcx', hk', ha', hx', hcls, hinst⟩

/-- **An instance gets a foreign object.** -/
theorem gives_wrapInstance (run : Runner) (hr : r.ConvertsConstants) (hw : w.Hosts cx r) (cls : ClassKey)
    (inst : InstanceId) : Gives (wrapInstance run cx cls inst) w fun obj w' =>
      Grows cx w w' ∧ w'.Wraps cx obj cls inst := by
  refine .bind (gives_classOf hr hw cls) fun c w₁ h₁ => ?_
  obtain ⟨hg₁, hc⟩ := h₁
  exact (gives_wrapped run (hg₁.hosts hw) hc cls inst).mono fun _ _ h => ⟨hg₁.trans h.1, h.2⟩

end Engine

end Isthmus
