import Isthmus.Proofs.Run.Classes
import Isthmus.Proofs.Values.Endings
import Isthmus.Proofs.Values.Number
import Isthmus.Proofs.Values.Probe

/-!
# Proofs/Values/RoundTrip — native values across the border and back

A native value that is converted to the foreign side and back comes back in a normal form:
`NativeValue.normal`.  `Reachable.normalizes` says so for every value made of plain data and of instances
of registered classes, and that a second round trip changes nothing.

Converting runs no code, provided that the classes of the bridge still have their prototypes: a script
may put a getter in the place of one, and then a conversion may throw.
-/

namespace Isthmus

/-! ## Normal forms -/

mutual

/-- What comes back of a value. -/
def NativeValue.normal (limit : Nat) : NativeValue → NativeValue
  | .double d => World.ofNumber d
  | .buffer b => if b.bytes.size ≠ 0 ∧ b.bytes.size < limit then .buffer b else .void
  | .list items => .list (NativeValue.normalItems limit items)
  | .variant content => content.normal limit
  | v => v

/-- What comes back of the items of a list: variants. -/
def NativeValue.normalItems (limit : Nat) : List NativeValue → List NativeValue
  | [] => []
  | v :: rest => .variant (v.normal limit) :: NativeValue.normalItems limit rest

end

namespace NativeValue

/-- Items are normalised one by one, as variants. -/
theorem normalItems_eq_map (limit : Nat) (items : List NativeValue) :
    normalItems limit items = items.map fun v => .variant (v.normal limit) := by
  induction items with
  | nil => rfl
  | cons v rest ih => rw [normalItems, ih, List.map_cons]

/-- A number that was read is in its normal form. -/
theorem normal_ofNumber (limit : Nat) (d : Float) :
    (World.ofNumber d).normal limit = World.ofNumber d := by
  rw [World.ofNumber]
  cases h : Number.int32? d with
  | some i => rfl
  | none => rw [normal, World.ofNumber, h]

mutual

/-- **A normal form stays as it is.** -/
theorem normal_normal (limit : Nat) (v : NativeValue) :
    (v.normal limit).normal limit = v.normal limit := by
  cases v with
  | double d => rw [normal, normal_ofNumber]
  | buffer b =>
    rw [normal]
    split
    · next h => rw [normal, if_pos h]
    · rfl
  | list items => rw [normal, normal, normalItems_normalItems limit items]
  | variant content => rw [normal, normal_normal limit content]
  | _ => rfl

/-- A list that is in normal form stays as it is. -/
theorem normalItems_normalItems (limit : Nat) (items : List NativeValue) :
    normalItems limit (normalItems limit items) = normalItems limit items := by
  cases items with
  | nil => rfl
  | cons v rest =>
    rw [normalItems, normalItems, normal, normal_normal limit v, normalItems_normalItems limit rest]

end

end NativeValue

/-! ## Values that convert -/

/-- The value is made of plain data and of instances of the classes that it names. -/
inductive World.Convertible (w : World) (keys : List ClassKey) : NativeValue → Prop where
  | void : Convertible w keys .void
  | bool (b : Bool) : Convertible w keys (.bool b)
  | int (i : Int32) : Convertible w keys (.int i)
  | double (d : Float) : Convertible w keys (.double d)
  | string (s : String) : Convertible w keys (.string s)
  | buffer (b : Buffer) : Convertible w keys (.buffer b)
  | list {items} (h : ∀ v ∈ items, Convertible w keys v) : Convertible w keys (.list items)
  | variant {content} (h : Convertible w keys content) : Convertible w keys (.variant content)
  | object {key inst i} (hk : key ∈ keys) (hi : w.instance? inst = some i)
      (hc : i.class? = some key) : Convertible w keys (.object key.typeId inst)

/-- Its normal form converts as well. -/
theorem World.Convertible.normal {w : World} {keys : List ClassKey} {v : NativeValue}
    (h : w.Convertible keys v) (limit : Nat) : w.Convertible keys (v.normal limit) := by
  induction h with
  | double d =>
    rw [NativeValue.normal, World.ofNumber]
    split
    · exact .int _
    · exact .double d
  | buffer b =>
    rw [NativeValue.normal]
    split
    · exact .buffer b
    · exact .void
  | @list items h ih =>
    rw [NativeValue.normal, NativeValue.normalItems_eq_map]
    refine .list fun v hv => ?_
    obtain ⟨item, hitem, rfl⟩ := List.mem_map.1 hv
    exact .variant (ih item hitem)
  | variant h ih => exact ih
  | object hk hi hc => exact .object hk hi hc
  | void => exact .void
  | bool b => exact .bool b
  | int i => exact .int i
  | string s => exact .string s

/-! ## Encoders -/

/-- The class of a number is found. -/
theorem ClassKey.find?_typeId (key : ClassKey) :
    ClassKey.all.find? (·.typeId = key.typeId) = some key := by
  cases key with
  | puppet index => revert index; decide
  | _ => decide

/-- Classes have different numbers. -/
theorem ClassKey.typeId_injective {key key' : ClassKey} (h : key.typeId = key'.typeId) :
    key = key' := by
  have hk := key.find?_typeId
  rw [h, key'.find?_typeId] at hk
  exact (Option.some.inj hk).symm

namespace Registry

variable {plans : Plans} {keys : List ClassKey} {limit : Nat} {dynamic : List TypeId}

/-- A conversion that is registered is found under its type, and the others stay. -/
theorem encoder?_withEncoder (r : Registry) (t : TypeId) (e : Encoder) (t' : TypeId) :
    (r.withEncoder t e).encoder? t' = if t' = t then some e else r.encoder? t' := by
  rw [encoder?, withEncoder, encoder?, List.find?_cons]
  by_cases h : t' = t
  · simp [h]
  · have hp : (fun e : TypeId × Encoder =>
        decide (decide (e.1 ≠ t) = true ∧ decide (e.1 = t') = true)) = fun e => decide (e.1 = t') := by
      funext e
      by_cases he : e.1 = t'
      · simp [he, h]
      · simp [he]
    rw [if_neg h, List.find?_filter, hp, decide_eq_false (Ne.symm h)]

/-- A class is converted as an instance. -/
theorem encoder?_withClass (r : Registry) (key : ClassKey) (t : TypeId) :
    (withClass plans r key).encoder? t =
      if t = key.typeId then some (.instance key) else r.encoder? t :=
  encoder?_withEncoder r key.typeId (.instance key) t

/-- Registering classes leaves the built-in conversions as they are. -/
theorem encoder?_builtin {t : TypeId} (ht : t.isBuiltin) :
    (withClasses plans keys limit dynamic).encoder? t = base.encoder? t := by
  refine foldl_withClass (P := fun r => r.encoder? t = base.encoder? t)
    (r := { base with maxBufferLength := limit, dynamicTypes := dynamic }) (fun r key hr => ?_) rfl keys
  rw [encoder?_withClass, if_neg (ClassKey.typeId_ne ht).symm, hr]

/-- The instances of a registered class have a conversion. -/
theorem encoder?_class {key : ClassKey} (hk : key ∈ keys) :
    (withClasses plans keys limit dynamic).encoder? key.typeId = some (.instance key) := by
  rw [withClasses]
  generalize { base with maxBufferLength := limit, dynamicTypes := dynamic } = r
  induction keys generalizing r with
  | nil => cases hk
  | cons k keys ih =>
    by_cases hmem : key ∈ keys
    · exact ih hmem _
    · obtain rfl := (List.mem_cons.1 hk).resolve_right hmem
      refine foldl_withClass (P := fun r => r.encoder? key.typeId = some (.instance key))
        (fun r k hr => ?_) (by rw [encoder?_withClass, if_pos rfl]) keys
      rw [encoder?_withClass]
      split
      · next h => rw [ClassKey.typeId_injective h]
      · exact hr

/-- Classes leave the limit of buffers as it is. -/
theorem maxBufferLength_withClasses :
    (withClasses plans keys limit dynamic).maxBufferLength = limit :=
  foldl_withClass (P := fun r => r.maxBufferLength = limit) (fun _ _ hr => hr) rfl keys

/-- They leave the built-in conversions as they are. -/
theorem keepsBuiltin_withClasses : (withClasses plans keys limit dynamic).KeepsBuiltin :=
  fun _ ht => encoder?_builtin ht

end Registry

/-! ## What a foreign value stands for -/

namespace World

variable {w w' : World} {cx : ContextId}

/-- Arrays are still made of older objects. -/
theorem Grows.nested (h : Grows cx w w') (hn : w.Nested) : w'.Nested := by
  intro id o items ho hk p hp
  by_cases hlt : id.index < w.objects.next
  · exact hn id o items ((h.object? id hlt).symm.trans ho) hk p hp
  · exact (h.young id o ho (Nat.not_lt.1 hlt)).nested items hk p hp

/-- A value that converts still does when the world has grown. -/
theorem Grows.convertible {keys : List ClassKey} (h : Grows cx w w') {v : NativeValue}
    (hv : w.Convertible keys v) : w'.Convertible keys v := by
  induction hv with
  | void => exact .void
  | bool b => exact .bool b
  | int i => exact .int i
  | double d => exact .double d
  | string s => exact .string s
  | buffer b => exact .buffer b
  | list _ ih => exact .list ih
  | variant _ ih => exact .variant ih
  | object hk hi hc => exact .object hk (by rw [instance?, h.instances]; exact hi) hc

/-- The value is there and has the counterpart, and goes on to have it however the world grows. -/
structure Denotes (w : World) (cx : ContextId) (v : ForeignValue) (n : NativeValue) : Prop where
  present : w.isPresent v
  infers : ∀ w', Grows cx w w' → w'.Nested → w'.infer cx v = .ok n

/-- What is there is there when the world has grown. -/
theorem Grows.present (h : Grows cx w w') {v : ForeignValue} (hv : w.isPresent v) :
    w'.isPresent v := by
  cases v with
  | object id =>
    obtain ⟨o, ho⟩ := Option.isSome_iff_exists.1 hv
    exact Option.isSome_iff_exists.2 ⟨o, h.object ho⟩
  | _ => exact hv

/-- What a value stands for, it stands for when the world has grown. -/
theorem Denotes.grow {v : ForeignValue} {n : NativeValue} (hv : w.Denotes cx v n)
    (h : Grows cx w w') : w'.Denotes cx v n :=
  ⟨h.present hv.present, fun _ h' hn => hv.infers _ (h.trans h') hn⟩

/-- A value that is no object stands for the same in every world. -/
theorem Denotes.plain {v : ForeignValue} {n : NativeValue} (hv : v.asObject? = none)
    (h : ∀ w : World, w.infer cx v = .ok n) : w.Denotes cx v n := by
  refine ⟨?_, fun w' _ _ => h w'⟩
  cases v with
  | object id => cases hv
  | _ => rfl

/-- An object that stands for an instance denotes it. -/
theorem Wraps.denotes {obj cls inst} (h : w.Wraps cx obj cls inst) :
    w.Denotes cx (.object obj) (.object cls.typeId inst) := by
  refine ⟨?_, fun w' hg hn => ?_⟩
  · obtain ⟨o, -, -, ho, -⟩ := h
    exact Option.isSome_iff_exists.2 ⟨o, ho⟩
  · obtain ⟨o, handle, x, ho, hc, hk, ha, hx, rfl, rfl⟩ := hg.wraps h
    have hbound : w'.boundHandle cx obj = .ok x := by
      rw [boundHandle, ho]
      dsimp only
      rw [if_neg (by simp [hc]), ha]
      dsimp only
      rw [hx]
    rw [infer_object ho (by simp [hk]), Object.buffer?, hk, hbound]
    rfl

/-- A buffer that was added denotes itself. -/
theorem denotes_buffer (w : World) (cx : ContextId) (b : Buffer) :
    (w.adding { context := cx, kind := .arrayBuffer b }).Denotes cx (.object ⟨w.objects.next⟩)
      (.buffer b) := by
  have ho := object?_adding w { context := cx, kind := .arrayBuffer b }
  refine ⟨Option.isSome_iff_exists.2 ⟨_, ho⟩, fun w' hg hn => ?_⟩
  rw [infer_object (hg.object ho) (by simp)]
  rfl

/-- What the items of an array denote. -/
theorem mapM_infer {vs : List ForeignValue} {ns : List NativeValue} {limit : Nat}
    (h : List.Forall₂ (fun v n => w.Denotes cx v (n.normal limit)) vs ns) (hg : Grows cx w w')
    (hn : w'.Nested) : (vs.mapM fun v => do return (← w'.infer cx v).toVariant) =
      .ok (NativeValue.normalItems limit ns) := by
  induction h with
  | nil => rfl
  | cons hv _ ih =>
    have hinfer := hv.infers w' hg hn
    rw [List.mapM_cons, hinfer, ih, NativeValue.normalItems,
      ← NativeValue.toVariant_of_ne (inferred hinfer).typeId_ne]
    rfl

/-- An array that was added denotes the list of what its items denote. -/
theorem denotes_array {vs : List ForeignValue} {ns : List NativeValue} {limit : Nat}
    (h : List.Forall₂ (fun v n => w.Denotes cx v (n.normal limit)) vs ns)
    (hadd : Grows cx w (w.adding { context := cx, kind := .array vs })) :
    (w.adding { context := cx, kind := .array vs }).Denotes cx (.object ⟨w.objects.next⟩)
      (.list (NativeValue.normalItems limit ns)) := by
  have ho := object?_adding w { context := cx, kind := .array vs }
  refine ⟨Option.isSome_iff_exists.2 ⟨_, ho⟩, fun w' hg hn => ?_⟩
  rw [infer_array hn (hg.object ho) rfl, mapM_infer h (hadd.trans hg) hn]
  rfl

end World

/-! ## Converting -/

namespace Engine

open World

variable {w : World} {cx : ContextId} {plans : Plans} {keys : List ClassKey} {limit : Nat}
  {dynamic : List TypeId} {r : Registry}

/-- A value of a type with a conversion is converted by it. -/
theorem gives_encoded {run : Runner} {v : NativeValue} {e : Encoder} {P : ForeignValue → World → Prop}
    (hl : ∀ items, v ≠ .list items) (hv : ∀ content, v ≠ .variant content)
    (he : r.encoder? v.typeId = some e) (h : Gives (encode run cx r.maxBufferLength e v) w P) :
    Gives (toForeign run cx r v) w fun x w' => ∃ f, x = .ok f ∧ P f w' := by
  rw [toForeign_eq run hl hv he]
  exact .bind h fun f w' hf => .pure ⟨f, rfl, hf⟩

/-- A value of a built-in type that converts to plain data. -/
theorem gives_plain {run : Runner} {v : NativeValue} {e : Encoder} {f : ForeignValue}
    (hl : ∀ items, v ≠ .list items) (hv : ∀ content, v ≠ .variant content) (hr : r.KeepsBuiltin)
    (ht : v.typeId.isBuiltin) (he : Registry.base.encoder? v.typeId = some e)
    (henc : (encode run cx r.maxBufferLength e v).run w = .ok f w) (hf : f.asObject? = none)
    (hd : ∀ w : World, w.infer cx f = .ok (v.normal limit)) :
    Gives (toForeign run cx r v) w fun x w' => ∃ f, x = .ok f ∧
      Grows cx w w' ∧ w'.Denotes cx f (v.normal limit) :=
  gives_encoded hl hv ((hr _ ht).trans he) (.intro henc ⟨(Builds.refl w).toGrows, .plain hf hd⟩)

/-- A buffer becomes a value that stands for its normal form. -/
theorem gives_buffer (run : Runner) (hr : r.KeepsBuiltin) (w : World) (cx : ContextId) (b : Buffer) :
    Gives (toForeign run cx r (.buffer b)) w fun x w' => ∃ f, x = .ok f ∧
      Grows cx w w' ∧ w'.Denotes cx f ((NativeValue.buffer b).normal r.maxBufferLength) := by
  refine gives_encoded (e := .buffer) (by simp) (by simp) (hr .buffer rfl) ?_
  have hencode : encode run cx r.maxBufferLength .buffer (.buffer b) =
      if b.bytes.size ≠ 0 ∧ b.bytes.size < r.maxBufferLength then do
        return .object (← allocate { context := cx, kind := .arrayBuffer b })
      else return .undefined := rfl
  rw [hencode, NativeValue.normal]
  by_cases hb : b.bytes.size ≠ 0 ∧ b.bytes.size < r.maxBufferLength
  · rw [if_pos hb, if_pos hb]
    have hadd : Builds cx w (w.adding { context := cx, kind := .arrayBuffer b }) :=
      .adding w rfl rfl (by rintro items ⟨⟩)
    exact .step (run_allocate _) (.pure ⟨hadd.toGrows, denotes_buffer w cx b⟩)
  · rw [if_neg hb, if_neg hb]
    exact .pure ⟨(Builds.refl w).toGrows, .plain rfl fun _ => rfl⟩

/-- An instance of a class that the registry has. -/
theorem gives_instance (run : Runner) (hw : w.Hosts cx r) (hr : r.KeepsBuiltin) {key : ClassKey}
    (he : r.encoder? key.typeId = some (.instance key)) {inst : InstanceId} {i : Instance}
    (hi : w.instance? inst = some i) (hc : i.class? = some key) :
    Gives (toForeign run cx r (.object key.typeId inst)) w fun x w' => ∃ f, x = .ok f ∧
      Grows cx w w' ∧ w'.Denotes cx f (.object key.typeId inst) := by
  refine gives_encoded (by simp) (by simp) he (.get ?_)
  have hclass : (w.instance? inst).bind (·.class?) = some key := by rw [hi]; exact hc
  simp only [NativeValue.unwrap, NativeValue.asObject?]
  rw [if_pos hclass]
  have hhold : Grows cx w (w.holding [.inst inst]) := (Builds.holding w _).toGrows
  have hrun : (hold [.inst inst]).run w = .ok () (w.holding [.inst inst]) := rfl
  refine .step hrun ?_
  refine .bind (gives_wrapInstance run hr.convertsConstants (hhold.hosts hw) key inst) fun obj w' h => ?_
  exact .pure ⟨hhold.trans h.1, h.2.denotes⟩

/-- Values convert one after the other, if each converts. -/
theorem gives_allToForeign (run : Runner) {items : List NativeValue} {w₁ : World} (hg : Grows cx w w₁)
    (hw : w₁.Hosts cx r)
    (h : ∀ v ∈ items, ∀ w₁, Grows cx w w₁ → w₁.Hosts cx r →
      Gives (toForeign run cx r v) w₁ fun x w' => ∃ f, x = .ok f ∧
        Grows cx w₁ w' ∧ w'.Denotes cx f (v.normal limit)) :
    Gives (allToForeign run cx r items) w₁ fun x w' => ∃ fs, x = .ok fs ∧ Grows cx w₁ w' ∧
      List.Forall₂ (fun f v => w'.Denotes cx f (v.normal limit)) fs items := by
  induction items generalizing w₁ with
  | nil =>
    rw [allToForeign]
    exact .pure ⟨[], rfl, (Builds.refl w₁).toGrows, .nil⟩
  | cons v rest ih =>
    rw [allToForeign]
    refine .bind (h v (List.mem_cons_self ..) w₁ hg hw) fun x w₂ h₂ => ?_
    obtain ⟨f, rfl, hg₂, hf⟩ := h₂
    have hrest := ih (hg.trans hg₂) (hg₂.hosts hw) fun u hu => h u (List.mem_cons_of_mem _ hu)
    refine .bind hrest fun x w₃ h₃ => ?_
    obtain ⟨fs, rfl, hg₃, hfs⟩ := h₃
    exact .pure ⟨f :: fs, rfl, hg₂.trans hg₃, .cons (hf.grow hg₃) hfs⟩

/-- An array of values that are there. -/
theorem gives_createArray {fs : List ForeignValue} {items : List NativeValue}
    (h : List.Forall₂ (fun f v => w.Denotes cx f (v.normal limit)) fs items) :
    Gives (createArray cx fs) w fun obj w' => Grows cx w w' ∧
      w'.Denotes cx (.object obj) (.list (NativeValue.normalItems limit items)) := by
  have hpresent : ∀ f ∈ fs, w.isPresent f := by
    induction h with
    | nil => simp
    | cons hf _ ih => exact List.forall_mem_cons.2 ⟨hf.present, ih⟩
  have hadd : Builds cx w (w.adding { context := cx, kind := .array fs }) := by
    refine .adding w rfl rfl fun items hk p hp => ?_
    cases hk
    obtain ⟨o, ho⟩ := Option.isSome_iff_exists.1 (hpresent _ hp)
    exact object?_lt ho
  refine .get ?_
  rw [if_pos (List.all_eq_true.2 hpresent)]
  exact .intro (run_allocate _) ⟨hadd.toGrows, denotes_array h hadd.toGrows⟩

/-- **A value converts**, and what comes of it denotes its normal form. -/
theorem gives_toForeign (run : Runner) {v : NativeValue} (hv : w.Convertible keys v) {w₁ : World}
    (hg : Grows cx w w₁) (hw : w₁.Hosts cx (.withClasses plans keys limit dynamic)) :
    Gives (toForeign run cx (.withClasses plans keys limit dynamic) v) w₁ fun x w' => ∃ f, x = .ok f ∧
      Grows cx w₁ w' ∧ w'.Denotes cx f (v.normal limit) := by
  have hr : (Registry.withClasses plans keys limit dynamic).KeepsBuiltin :=
    Registry.keepsBuiltin_withClasses
  induction hv generalizing w₁ with
  | void => exact gives_plain (by simp) (by simp) hr rfl rfl rfl rfl fun _ => rfl
  | bool b => exact gives_plain (by simp) (by simp) hr rfl rfl rfl rfl fun _ => rfl
  | string s => exact gives_plain (by simp) (by simp) hr rfl rfl rfl rfl fun _ => rfl
  | double d => exact gives_plain (by simp) (by simp) hr rfl rfl rfl rfl fun _ => rfl
  | int i =>
    refine gives_plain (by simp) (by simp) hr rfl rfl rfl rfl fun w => ?_
    change Except.ok (ofNumber (Number.ofInt32 i)) = _
    rw [ofNumber, Number.int32?_ofInt32]
    rfl
  | buffer b =>
    have h := gives_buffer run hr w₁ cx b
    rwa [Registry.maxBufferLength_withClasses] at h
  | variant _ ih =>
    rw [toForeign, NativeValue.normal]
    exact ih hg hw
  | @object key inst i hk hi hc =>
    have hi' : w₁.instance? inst = some i := by rw [instance?, hg.instances]; exact hi
    exact gives_instance run hw hr (Registry.encoder?_class hk) hi' hc
  | @list items _ ih =>
    rw [toForeign, NativeValue.normal]
    refine .bind (gives_allToForeign run hg hw fun v hv w₁ hg hw => ih v hv hg hw) fun x w' h => ?_
    obtain ⟨fs, rfl, hg', hfs⟩ := h
    exact .bind (gives_createArray hfs) fun obj w'' h => .pure ⟨_, rfl, hg'.trans h.1, h.2⟩

end Engine

/-! ## There and back -/

namespace World

/-- **A round trip**: the value converts to the foreign side, which leads to the world `w'`, and comes
back as a variant of its normal form; a list also comes back as a list. -/
def RoundTrip (run : Runner) (cx : ContextId) (r : Registry) (w : World) (v : NativeValue)
    (w' : World) : Prop :=
  ∃ f, (Engine.toForeign run cx r v).run w = .ok (.ok f) w' ∧
    (Engine.fromForeign cx r f .variant).run w' =
      .ok (.ok (.variant (v.normal r.maxBufferLength))) w' ∧
    ∀ items, v = .list items →
      (Engine.fromForeign cx r f .list).run w' = .ok (.ok (v.normal r.maxBufferLength)) w'

variable {w : World} {cx : ContextId} {r : Registry}

/-- A variant takes whatever is inferred. -/
theorem run_fromForeign_variant {f : ForeignValue} {n : NativeValue} (h : w.infer cx f = .ok n) :
    (Engine.fromForeign cx r f .variant).run w = .ok (.ok (.variant n)) w := by
  rw [Engine.fromForeign, Engine.run_get_bind, fromForeign, if_pos rfl, h,
    ← NativeValue.toVariant_of_ne (inferred h).typeId_ne]
  rfl

/-- Only arrays have lists for counterparts. -/
theorem array_of_infer_list {f : ForeignValue} {items : List NativeValue}
    (h : w.infer cx f = .ok (.list items)) :
    ∃ id o vs, f = .object id ∧ w.object? id = some o ∧ o.kind = .array vs := by
  cases f with
  | object id =>
    cases ho : w.object? id with
    | none => cases (infer_gone ho).symm.trans h
    | some o =>
      by_cases ha : ∃ vs, o.kind = .array vs
      · obtain ⟨vs, hk⟩ := ha
        exact ⟨id, o, vs, rfl, ho, hk⟩
      · rw [infer_object ho (not_exists.1 ha)] at h
        cases hbuffer : o.buffer? with
        | some b =>
          rw [hbuffer] at h
          cases h
        | none =>
          rw [hbuffer] at h
          obtain ⟨handle, -, hhandle⟩ := ok_of_map h
          cases hhandle
  | number x =>
    have hx : NativeValue.list items = ofNumber x := (Except.ok.inj h).symm
    rw [ofNumber] at hx
    split at hx
    · cases hx
    · cases hx
  | _ => cases h

/-- A list takes an array. -/
theorem run_fromForeign_list {f : ForeignValue} {items : List NativeValue} (hn : w.Nested)
    (h : w.infer cx f = .ok (.list items)) :
    (Engine.fromForeign cx r f .list).run w = .ok (.ok (.list items)) w := by
  obtain ⟨id, o, vs, rfl, ho, hk⟩ := array_of_infer_list h
  have hitems : w.itemsOf (.object id) = some vs := by
    rw [itemsOf, ForeignValue.asObject?, Option.bind_some, ho, Option.bind_some, Object.items?, hk]
  rw [infer_array hn ho hk] at h
  rw [Engine.fromForeign, Engine.run_get_bind, fromForeign, if_neg (by decide), if_pos rfl, hitems]
  change EStateM.run (Engine.look cx (converted .list (do
    return .list (← vs.mapM fun v => do return (← w.infer cx v).toVariant)))) w = _
  rw [h]
  rfl

/-- **There and back** for every value that converts. -/
theorem roundTrip (run : Runner) {plans : Plans} {keys : List ClassKey} {limit : Nat}
    {dynamic : List TypeId} (hn : w.Nested) {v : NativeValue} (hv : w.Convertible keys v)
    (hw : w.Hosts cx (.withClasses plans keys limit dynamic)) :
    ∃ w', RoundTrip run cx (.withClasses plans keys limit dynamic) w v w' ∧ Grows cx w w' := by
  obtain ⟨_, w', hrun, f, rfl, hg, hd⟩ := Engine.gives_toForeign run hv (Builds.refl w).toGrows hw
  have hn' := hg.nested hn
  have hinfer := hd.infers w' (Builds.refl w').toGrows hn'
  refine ⟨w', ⟨f, hrun, ?_, ?_⟩, hg⟩
  · rw [Registry.maxBufferLength_withClasses]
    exact run_fromForeign_variant hinfer
  · rintro items rfl
    rw [Registry.maxBufferLength_withClasses]
    exact run_fromForeign_list hn' hinfer

end World

/-- **Round trips normalize**: on a context with the built-in conversions and those of any classes, whose
generated classes still have plain prototypes, every value makes a round trip.  What came back of it makes
another one, which changes nothing, since a normal form is its own. -/
theorem Reachable.normalizes {w : World} (h : Reachable w) {cx : ContextId} {id i} {plans : Plans}
    {keys : List ClassKey} {limit : Nat} {dynamic : List TypeId} (hb : w.bridge? cx = some (id, i))
    (hr : i.registry = .withClasses plans keys limit dynamic)
    (hp : ∀ e ∈ i.classes, w.PlainPrototype cx e.2) {v : NativeValue} (hv : w.Convertible keys v)
    (run : Runner) :
    (v.normal limit).normal limit = v.normal limit ∧
    ∃ w', World.RoundTrip run cx i.registry w v w' ∧
      ∀ u, u = v.normal limit ∨ u = .variant (v.normal limit) →
        ∃ w'', World.RoundTrip run cx i.registry w' u w'' := by
  have hw : w.Hosts cx (.withClasses plans keys limit dynamic) := by
    obtain ⟨hd, hi⟩ := World.bridge?_eq_some.1 hb
    obtain ⟨_, hi', hmem⟩ := h.bridged.installed hd
    exact ⟨id, i, hb, hr, fun e he => ⟨h.classed cx id _ i hmem hi e he, hp e he⟩⟩
  rw [hr]
  obtain ⟨w', htrip, hg⟩ := World.roundTrip run h.nested hv hw
  refine ⟨v.normal_normal limit, w', htrip, fun u hu => ?_⟩
  have hnormal := hg.convertible (hv.normal limit)
  have hconvertible : w'.Convertible keys u := by
    obtain rfl | rfl := hu
    · exact hnormal
    · exact .variant hnormal
  obtain ⟨w'', htrip', -⟩ := World.roundTrip run (hg.nested h.nested) hconvertible (hg.hosts hw)
  exact ⟨w'', htrip'⟩

namespace Converting

/-- The registry with the class of matrices. -/
def registry : Registry :=
  .withClasses {} [.matrix] 10 []

/-- A context with that registry. -/
def host : World :=
  (({} : World).openContext ⟨0⟩).install ⟨0⟩ registry

/-- The class of matrices, with some property for its prototype. -/
def matrixClass (prototype : Property) : Object where
  context := ⟨0⟩
  kind := .function "Matrix" (.member .matrix .construct) 0
  properties := [("prototype", prototype)]

/-- There are the class of matrices, an object for its prototype, and a matrix. -/
def stocked (prototype : Property) : World :=
  { host with
    objects := (host.objects.insert (matrixClass prototype)).insert { context := ⟨0⟩ }
    instances := host.instances.insert (.matrix (Matrix.empty 0)) }

/-- The bridge keeps the class. -/
def kept (prototype : Property) : World :=
  { stocked prototype with
    installations := (stocked prototype).installations.modify 0 fun i =>
      { i with classes := i.classes ++ [(.matrix, ⟨0⟩)] } }

/-- The world of the example is reachable. -/
theorem reachable_kept (prototype : Property) : Reachable (kept prototype) := by
  let created : World := { host with objects := host.objects.insert (matrixClass prototype) }
  have hinstall : Move (({} : World).openContext ⟨0⟩) host := .install registry rfl
  have hcreate : Move host created :=
    .quiet (.of_frame (.insert host.objects (matrixClass prototype) (by rintro items ⟨⟩)) rfl)
  have hstock : Move created (stocked prototype) :=
    .quiet (.of_frame (.insert created.objects { context := ⟨0⟩ } (by rintro items ⟨⟩)) rfl)
  have hbridge : (stocked prototype).bridge? ⟨0⟩ = some (⟨0⟩, { registry }) := rfl
  have hkeep : Move (stocked prototype) (kept prototype) := .keepClass (.matrix, ⟨0⟩) hbridge rfl rfl rfl
  exact ⟨{}, (((Relation.ReflTransGen.single (.openContext ⟨0⟩)).tail hinstall).tail hcreate).tail hstock
    |>.tail hkeep⟩

/-- A list of an int, an empty buffer, a matrix and a list. -/
def things : NativeValue :=
  .list [.int 7, .variant (.buffer ⟨0, #[]⟩), .object ClassKey.matrix.typeId ⟨0⟩, .list [.string "s"]]

theorem bridge?_kept (prototype : Property) : (kept prototype).bridge? ⟨0⟩ =
    some (⟨0⟩, { registry, classes := [(.matrix, ⟨0⟩)] }) := rfl

/-- A matrix converts. -/
theorem convertible_matrix (prototype : Property) :
    (kept prototype).Convertible [.matrix] (.object ClassKey.matrix.typeId ⟨0⟩) :=
  .object (i := .matrix (Matrix.empty 0)) (List.mem_singleton.2 rfl) rfl rfl

/-- So does a list of things. -/
theorem convertible_things (prototype : Property) : (kept prototype).Convertible [.matrix] things := by
  refine .list fun v hv => ?_
  simp only [List.mem_cons, List.not_mem_nil, or_false] at hv
  obtain rfl | rfl | rfl | rfl := hv
  · exact .int 7
  · exact .variant (.buffer _)
  · exact convertible_matrix prototype
  · refine .list fun v hv => ?_
    obtain rfl := List.mem_singleton.1 hv
    exact .string "s"

/-- The prototype of the class is an object of the context. -/
theorem plainPrototype_kept :
    (kept (.data (.object ⟨1⟩) false false)).PlainPrototype ⟨0⟩ ⟨0⟩ := by
  intro p own h
  rw [World.lookup] at h
  cases h
  refine .inr ⟨.object ⟨1⟩, false, false, rfl, ?_⟩
  rintro id ⟨⟩
  exact ⟨{ context := ⟨0⟩ }, rfl, rfl⟩

/-- A getter that throws. -/
def throwing : Property :=
  .accessor (some (.stock .fail)) none 0 false

/-- The matrix is held while it is given an object. -/
def wrapping : World :=
  (kept throwing).holding [.inst ⟨0⟩]

/-- The class of matrices has been looked up, and its getter has thrown. -/
def thrown : World :=
  (wrapping.holding [.object ⟨0⟩]).adding
    { context := ⟨0⟩
      kind := .error
      properties := [("name", .data (.string "Error") true false),
        ("message", .data (.string "callback failed") true false)] }

/-- With a getter that throws in the place of the prototype, an instance does not convert. -/
theorem run_toForeign_throwing :
    (Engine.toForeign (Session.runner 1) ⟨0⟩ registry (.object ClassKey.matrix.typeId ⟨0⟩)).run
      (kept throwing) = .error (.thrown (.object ⟨2⟩)) thrown := by
  let w := wrapping.holding [.object ⟨0⟩]
  have hclass : (Engine.classOf ⟨0⟩ .matrix).run wrapping = .ok ⟨0⟩ w := rfl
  have hlookup : w.lookup ⟨0⟩ "prototype" = some (throwing, true) := by
    rw [World.lookup]
    rfl
  have ho : w.object? ⟨0⟩ = some (matrixClass throwing) := rfl
  have hget : (Engine.getProperty (Session.runner 1) ⟨0⟩ ⟨0⟩ "prototype").run w =
      .error (.thrown (.object ⟨2⟩)) thrown :=
    Engine.run_getProperty_getter (Session.runner 1) ho rfl rfl hlookup
  have hcreate : (Engine.createInstance (Session.runner 1) ⟨0⟩ ⟨0⟩).run w =
      .error (.thrown (.object ⟨2⟩)) thrown := Engine.run_bind_of_error hget
  have hwrap : (Engine.wrapInstance (Session.runner 1) ⟨0⟩ .matrix ⟨0⟩).run wrapping =
      .error (.thrown (.object ⟨2⟩)) thrown :=
    (Engine.run_bind_of_ok hclass).trans (Engine.run_bind_of_error hcreate)
  have hencode : (Engine.encode (Session.runner 1) ⟨0⟩ registry.maxBufferLength
      (.instance .matrix) (.object ClassKey.matrix.typeId ⟨0⟩)).run (kept throwing) =
      .error (.thrown (.object ⟨2⟩)) thrown := by
    change EStateM.run (do
      return ForeignValue.object (← Engine.wrapInstance (Session.runner 1) ⟨0⟩ .matrix ⟨0⟩))
      wrapping = _
    exact Engine.run_bind_of_error hwrap
  have he : registry.encoder? ClassKey.matrix.typeId = some (.instance .matrix) := rfl
  rw [Engine.toForeign_eq (Session.runner 1) (by simp) (by simp) he]
  exact Engine.run_bind_of_error hencode

end Converting

/-- A list comes back as a list of variants, with nothing for the empty buffer and the same matrix. -/
theorem normalizes_of_things : ∃ w' f,
    (Engine.toForeign (Session.runner 1) ⟨0⟩ Converting.registry Converting.things).run
      (Converting.kept (.data (.object ⟨1⟩) false false)) = .ok (.ok f) w' ∧
    (Engine.fromForeign ⟨0⟩ Converting.registry f .list).run w' = .ok (.ok (.list [.variant (.int 7),
      .variant .void, .variant (.object ClassKey.matrix.typeId ⟨0⟩),
      .variant (.list [.variant (.string "s")])])) w' := by
  have hplain : ∀ e ∈ [(ClassKey.matrix, (⟨0⟩ : ObjectId))],
      (Converting.kept (.data (.object ⟨1⟩) false false)).PlainPrototype ⟨0⟩ e.2 := by
    intro e he
    obtain rfl := List.mem_singleton.1 he
    exact Converting.plainPrototype_kept
  obtain ⟨-, w', ⟨f, hto, -, hlist⟩, -⟩ :=
    (Converting.reachable_kept _).normalizes (Converting.bridge?_kept _) rfl hplain
      (Converting.convertible_things _) (Session.runner 1)
  exact ⟨w', f, hto, hlist _ rfl⟩

/-- A script may put a getter in the place of the prototype of a generated class; if it throws, the
conversion of an instance does as well. -/
theorem thrown_by_prototype :
    Reachable (Converting.kept (.accessor (some (.stock .fail)) none 0 false)) ∧
    (Converting.kept (.accessor (some (.stock .fail)) none 0 false)).bridge? ⟨0⟩ =
      some (⟨0⟩, { registry := Converting.registry, classes := [(.matrix, ⟨0⟩)] }) ∧
    (Converting.kept (.accessor (some (.stock .fail)) none 0 false)).Convertible [.matrix]
      (.object ClassKey.matrix.typeId ⟨0⟩) ∧
    ∃ reason w', (Engine.toForeign (Session.runner 1) ⟨0⟩ Converting.registry
      (.object ClassKey.matrix.typeId ⟨0⟩)).run
        (Converting.kept (.accessor (some (.stock .fail)) none 0 false)) =
          .error (.thrown reason) w' := by
  exact ⟨Converting.reachable_kept _, rfl, Converting.convertible_matrix _, _, _,
    Converting.run_toForeign_throwing⟩

end Isthmus
