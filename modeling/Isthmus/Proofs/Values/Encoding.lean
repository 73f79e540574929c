import Isthmus.Proofs.Values.Coercion
import Isthmus.Proofs.Values.RoundTrip
import Isthmus.Proofs.Values.Traces

/-!
# Proofs/Values/Encoding — asking for a conversion to the foreign side and converting agree

The probe looks at types; the conversion makes objects, generates classes and attaches handles on the way.
`Engine.isOk_toForeign`: whatever the registry and whatever code runs meanwhile, a conversion that comes to
its end gives a value just in case the probe says so.  It may not come to its end, though: a conversion may
throw.

`Reachable.canToForeign_agrees`: with the built-in conversions and those of classes, which do not throw at
values of their own types (`Registry.Reliable`), and classes that still have plain prototypes, the one thing
that can stop a conversion is an object that does not hold an instance of the class that it is tagged with,
and then a type error is thrown.  Without such objects the probe and the conversion say the same.
-/

namespace Isthmus

namespace Engine

variable {cx : ContextId} {r : Registry} {w w' : World} (run : Runner)

/-- The probe asks for the conversion that is run. -/
theorem canToForeign_eq {v : NativeValue} (hl : ∀ items, v ≠ .list items)
    (hv : ∀ content, v ≠ .variant content) : r.canToForeign v = (r.encoder? v.typeId).isSome := by
  rw [Registry.canToForeign]
  · exact hv
  · exact hl

theorem isOk_part {v : NativeValue} {x : Except ConvertError ForeignValue}
    (hl : ∀ items, v ≠ .list items) (hv : ∀ content, v ≠ .variant content)
    (h : (toForeign run cx r v).run w = .ok x w') : x.isOk = r.canToForeign v := by
  rw [canToForeign_eq hl hv]
  cases he : r.encoder? v.typeId with
  | none =>
    rw [toForeign_none run hl hv he] at h
    cases h
    rfl
  | some e =>
    rw [toForeign_eq run hl hv he] at h
    obtain ⟨f, w₁, -, h⟩ := bind_ok h
    cases h
    rfl

mutual

/-- **The probe foretells the result** of every conversion that comes to its end. -/
theorem isOk_toForeign {v : NativeValue} {x : Except ConvertError ForeignValue} {w w' : World}
    (h : (toForeign run cx r v).run w = .ok x w') : x.isOk = r.canToForeign v := by
  cases v with
  | variant content =>
    rw [toForeign] at h
    rw [Registry.canToForeign]
    exact isOk_toForeign h
  | list items =>
    rw [toForeign] at h
    rw [Registry.canToForeign]
    obtain ⟨y, w₁, hall, h⟩ := bind_ok h
    have ih := isOk_allToForeign hall
    cases y with
    | error e =>
      cases h
      exact ih
    | ok values =>
      obtain ⟨obj, w₂, -, h⟩ := bind_ok h
      cases h
      exact ih
  | _ => exact isOk_part run nofun nofun h

/-- Items convert if each does. -/
theorem isOk_allToForeign {items : List NativeValue} {x : Except ConvertError (List ForeignValue)}
    {w w' : World} (h : (allToForeign run cx r items).run w = .ok x w') :
    x.isOk = r.canAllToForeign items := by
  cases items with
  | nil =>
    rw [allToForeign] at h
    cases h
    rfl
  | cons v rest =>
    rw [allToForeign] at h
    rw [Registry.canAllToForeign]
    obtain ⟨y, w₁, hv, h⟩ := bind_ok h
    rw [← isOk_toForeign hv]
    cases y with
    | error e =>
      cases h
      rfl
    | ok first =>
      obtain ⟨z, w₂, hrest, h⟩ := bind_ok h
      rw [← isOk_allToForeign hrest]
      cases z with
      | error e =>
        cases h
        rfl
      | ok others =>
        cases h
        rfl

end

end Engine

/-! ## Conversions that do not throw -/

/-- The conversion does not throw at values of the type, other than instances of other classes. -/
def Encoder.Suits : Encoder → TypeId → Prop
  | .refusal, _ => False
  | .deferred, t => t = .deferred
  | .instance cls, t => t = cls.typeId
  | _, _ => True

namespace Registry

/-- No conversion throws at values of the type that it is registered for, and the constants of classes
have conversions. -/
structure Reliable (r : Registry) : Prop where
  suits : ∀ t e, r.encoder? t = some e → e.Suits t
  constants : ∀ c : Constant, (r.encoder? c.toNative.typeId).isSome

namespace Reliable

variable {plans : Plans} {r r' : Registry}

theorem convertsConstants (h : r.Reliable) : r.ConvertsConstants := by
  intro c
  obtain ⟨e, he⟩ := Option.isSome_iff_exists.1 (h.constants c)
  refine ⟨e, he, ?_⟩
  rintro rfl
  exact h.suits _ _ he

theorem base : Registry.base.Reliable where
  suits t e he := by
    have hall : ∀ e ∈ Registry.base.encoders, e.2.Suits e.1 := by
      simp [Registry.base, Encoder.Suits]
    obtain ⟨x, hx, rfl⟩ := Option.map_eq_some_iff.1 he
    have ht : x.1 = t := by simpa using List.find?_some hx
    exact ht ▸ hall x (List.mem_of_find?_eq_some hx)
  constants c := by cases c <;> rfl

/-- The other settings do not matter. -/
theorem congr (h : r.Reliable) (he : r'.encoders = r.encoders) : r'.Reliable := by
  have heq (t : TypeId) : r'.encoder? t = r.encoder? t := by rw [encoder?, he, encoder?]
  exact ⟨fun t e he => h.suits t e (heq t ▸ he), fun c => heq _ ▸ h.constants c⟩

theorem withEncoder (h : r.Reliable) {t : TypeId} {e : Encoder} (he : e.Suits t) :
    (r.withEncoder t e).Reliable where
  suits t' e' h' := by
    rw [encoder?_withEncoder] at h'
    split at h'
    · next ht =>
      cases h'
      exact ht ▸ he
    · exact h.suits t' e' h'
  constants c := by
    rw [encoder?_withEncoder]
    split
    · rfl
    · exact h.constants c

theorem withClass (h : r.Reliable) (plans : Plans) (key : ClassKey) : (Registry.withClass plans r key).Reliable :=
  (h.withEncoder (e := .instance key) rfl).congr rfl

theorem withClasses {keys : List ClassKey} {limit : Nat} {dynamic : List TypeId} :
    (Registry.withClasses plans keys limit dynamic).Reliable :=
  foldl_withClass (r := { Registry.base with maxBufferLength := limit, dynamicTypes := dynamic })
    (fun _ key h => h.withClass _ key) (base.congr rfl) keys

end Reliable

end Registry

/-! ## Type errors -/

/-- The value is an error that calls itself a type error. -/
def World.IsTypeError (w : World) (v : ForeignValue) : Prop :=
  ∃ id o, v = .object id ∧ w.object? id = some o ∧ o.kind = .error ∧
    World.errorField o "name" = .string "TypeError"

namespace World

variable {w w' : World} {cx : ContextId} {r : Registry} {v : NativeValue}

/-- The value should convert to the foreign side of an instance, but holds no instance of that class. -/
def Mistagged (w : World) (r : Registry) (v : NativeValue) : Prop :=
  ∃ cls, r.encoder? v.typeId = some (.instance cls) ∧
    (v.asObject?.bind w.instance?).bind (·.class?) ≠ some cls

theorem Leads.mistagged {ds : List DeferredId} (h : Leads cx r ds w w') {r' : Registry} :
    w'.Mistagged r' v ↔ w.Mistagged r' v := by
  have heq : w'.instance? = w.instance? := by
    funext id
    rw [instance?, h.instances, instance?]
  rw [Mistagged, heq, Mistagged]

theorem isSome_deferred?_promiseTo (w : World) (d d' : DeferredId) :
    ((promiseTo cx w d').deferred? d).isSome = (w.deferred? d).isSome := by
  rw [promiseTo]
  split
  · rw [deferred?, promise_deferreds, Store.isSome_get?_modify, deferred?]
  · rfl

/-- Conversions take no deferred away. -/
theorem Leads.isSome_deferred? {ds : List DeferredId} (h : Leads cx r ds w w') (d : DeferredId) :
    (w'.deferred? d).isSome = (w.deferred? d).isSome := by
  have hfold : ((ds.foldl (promiseTo cx) w).deferred? d).isSome = (w.deferred? d).isSome := by
    clear h
    induction ds generalizing w with
    | nil => rfl
    | cons d' ds ih => exact ih.trans (isSome_deferred?_promiseTo w d d')
  rw [← hfold, deferred?, h.traces.deferreds, deferred?]

end World

namespace Engine

open World

variable {α β : Type} {w w' : World} {cx : ContextId} {r : Registry}

/-- The action throws a type error. -/
def Refuses (m : Engine α) (w : World) : Prop :=
  ∃ v w', m.run w = .error (.thrown v) w' ∧ w'.IsTypeError v

/-- The action comes to its end with the property, or there is a reason for it to throw a type error, and
it does. -/
def GivesUnless (bad : Prop) (m : Engine α) (w : World) (P : α → World → Prop) : Prop :=
  Gives m w P ∨ bad ∧ Refuses m w

namespace GivesUnless

variable {bad bad' : Prop} {m : Engine α} {P P' : α → World → Prop} {Q : β → World → Prop}

theorem get {f : World → Engine β} (h : GivesUnless bad (f w) w Q) :
    GivesUnless bad (MonadState.get >>= f) w Q :=
  h

theorem bind {f : α → Engine β} (hm : GivesUnless bad m w P)
    (hf : ∀ a w', P a w' → GivesUnless bad (f a) w' Q) : GivesUnless bad (m >>= f) w Q := by
  obtain ⟨a, w', hr, ha⟩ | ⟨hbad, v, w', hr, hv⟩ := hm
  · obtain h | ⟨hbad, v, w'', hr', hv⟩ := hf a w' ha
    · exact .inl (.step hr h)
    · exact .inr ⟨hbad, v, w'', (run_bind_of_ok hr).trans hr', hv⟩
  · exact .inr ⟨hbad, v, w', run_bind_of_error hr, hv⟩

theorem mono (h : GivesUnless bad m w P) (hb : bad → bad') (hp : ∀ a w', P a w' → P' a w') :
    GivesUnless bad' m w P' :=
  h.imp (fun h => h.mono hp) fun h => ⟨hb h.1, h.2⟩

end GivesUnless

theorem refuses_raiseTypeError (w : World) (cx : ContextId) (message : String) :
    Refuses (raiseTypeError cx message : Engine α) w :=
  ⟨.object ⟨w.objects.next⟩, w.adding _, rfl, _, _, rfl, object?_adding w _, rfl, rfl⟩

/-! ## What stops a conversion -/

variable {r₀ : Registry} (run : Runner)

theorem gives_encodePlain (w : World) (cx : ContextId) (limit : Nat) {e : Encoder} (he : e ≠ .refusal)
    (v : NativeValue) : Gives (encodePlain cx limit e v) w fun f w' => Builds cx w w' ∧ w'.isPresent f := by
  obtain ⟨f, w', hr⟩ := exists_run_encodePlain w cx limit he v
  have hends := ends_encodePlain w cx limit e v
  rw [Ends, hr] at hends
  exact .intro hr hends

/-- **An instance converts**, and anything else is refused. -/
theorem gives_wrapNative (h₀ : r₀.Reliable) (hw : w.Hosts cx r₀) (cls : ClassKey) {v : NativeValue}
    (hv : ∀ content, v ≠ .variant content) :
    GivesUnless ((v.asObject?.bind w.instance?).bind (·.class?) ≠ some cls) (wrapNative run cx cls v) w
      fun f w' => Grows cx w w' ∧ w'.isPresent f := by
  have hunwrap : v.unwrap = v := by
    cases v with
    | variant content => exact absurd rfl (hv content)
    | _ => rfl
  have hrefuse : Refuses (wrapNative.refuse cx cls v w : Engine ForeignValue) w :=
    refuses_raiseTypeError w cx _
  refine .get ?_
  rw [hunwrap]
  cases ho : v.asObject? with
  | none => exact .inr ⟨nofun, hrefuse⟩
  | some inst =>
    dsimp only
    split
    · have hhold : Grows cx w (w.holding [.inst inst]) := (Builds.holding w _).toGrows
      have hrun : (hold [.inst inst]).run w = .ok () (w.holding [.inst inst]) := rfl
      refine .inl (.step hrun ?_)
      refine .bind (gives_wrapInstance run h₀.convertsConstants (hhold.hosts hw) cls inst) fun obj w' h => ?_
      exact .pure ⟨hhold.trans h.1, Wraps.isPresent h.2⟩
    · next hc => exact .inr ⟨hc, hrefuse⟩

/-- **One part converts**, unless it is tagged as an instance that it does not hold. -/
theorem gives_part (hr : r.Reliable) (h₀ : r₀.Reliable) (hw : w.Ready cx r₀) {v : NativeValue}
    (hb : v.Built) (hl : ∀ items, v ≠ .list items) (hv : ∀ content, v ≠ .variant content)
    (hd : ∀ d, v = .deferred d → (w.deferred? d).isSome) :
    GivesUnless (w.Mistagged r v) (toForeign run cx r v) w fun x w' =>
      (∃ ds, Leads cx r₀ ds w w') ∧ ∀ f, x = .ok f → w'.isPresent f := by
  cases he : r.encoder? v.typeId with
  | none =>
    rw [toForeign_none run hl hv he]
    exact .inl (.pure ⟨⟨_, .refl hw⟩, nofun⟩)
  | some e =>
    rw [toForeign_eq run hl hv he]
    have hsuits := hr.suits _ _ he
    refine GivesUnless.bind (P := fun f w' => (∃ ds, Leads cx r₀ ds w w') ∧ w'.isPresent f) ?_
      fun f w' h => .inl (.pure ⟨h.1, fun f' hf => by cases hf; exact h.2⟩)
    have hplain (hp : e ≠ .refusal) : Gives (encodePlain cx r.maxBufferLength e v) w fun f w' =>
        (∃ ds, Leads cx r₀ ds w w') ∧ w'.isPresent f :=
      (gives_encodePlain w cx _ hp v).mono fun f w' h => ⟨⟨_, .grow hw h.1.toGrows⟩, h.2⟩
    cases e with
    | refusal => exact hsuits.elim
    | «instance» cls =>
      refine (gives_wrapNative run h₀ hw.hosts cls hv).mono (fun hbad => ⟨cls, he, hbad⟩) ?_
      exact fun f w' h => ⟨⟨_, .grow hw h.1⟩, h.2⟩
    | deferred =>
      obtain ⟨d, rfl⟩ : ∃ d, v = .deferred d := by
        cases v with
        | deferred d => exact ⟨d, rfl⟩
        | object type inst => exact absurd hsuits (hb.typeId_ne (by decide))
        | _ => cases hsuits
      obtain ⟨cell, hcell⟩ := Option.isSome_iff_exists.1 (hd d rfl)
      refine .inl (.bind (gives_promiseFor hw hcell) fun p w' h => .pure ⟨⟨_, h.1⟩, h.2⟩)
    | _ => exact .inl (hplain nofun)

mutual

/-- **What stops a conversion** is a part that is tagged as an instance that it does not hold. -/
theorem gives_unless_mistagged (hr : r.Reliable) (h₀ : r₀.Reliable) (v : NativeValue) {w : World}
    (hw : w.Ready cx r₀) (hb : v.Built) (hd : ∀ d, .deferred d ∈ v.refs → (w.deferred? d).isSome) :
    GivesUnless (∃ p ∈ v.parts, w.Mistagged r p) (toForeign run cx r v) w fun x w' =>
      (∃ ds, Leads cx r₀ ds w w') ∧ ∀ f, x = .ok f → w'.isPresent f := by
  cases v with
  | variant content =>
    rw [toForeign, NativeValue.parts]
    exact gives_unless_mistagged hr h₀ content hw hb.of_variant.1 hd
  | list items =>
    rw [toForeign, NativeValue.parts]
    refine (gives_all_unless_mistagged hr h₀ items hw hb.of_list hd).bind fun x w₁ h => ?_
    obtain ⟨⟨ds, hleads⟩, hpresent⟩ := h
    cases x with
    | error e => exact .inl (.pure ⟨⟨ds, hleads⟩, nofun⟩)
    | ok values =>
      refine .inl (.bind (gives_array (hpresent values rfl)) fun obj w₂ h => .pure ⟨?_, ?_⟩)
      · exact ⟨_, hleads.trans hw (.grow hleads.ready h.1)⟩
      · intro f hf
        cases hf
        exact h.2
  | deferred d =>
    refine (gives_part run hr h₀ hw hb nofun nofun fun d' h => ?_).mono
      (fun h => ⟨_, List.mem_singleton.2 rfl, h⟩) fun _ _ h => h
    cases h
    exact hd d (List.mem_singleton.2 rfl)
  | _ =>
    exact (gives_part run hr h₀ hw hb nofun nofun nofun).mono
      (fun h => ⟨_, List.mem_singleton.2 rfl, h⟩) fun _ _ h => h

theorem gives_all_unless_mistagged (hr : r.Reliable) (h₀ : r₀.Reliable) (items : List NativeValue)
    {w : World} (hw : w.Ready cx r₀) (hb : ∀ v ∈ items, v.Built)
    (hd : ∀ d, .deferred d ∈ NativeValue.refsIn items → (w.deferred? d).isSome) :
    GivesUnless (∃ p ∈ NativeValue.partsIn items, w.Mistagged r p) (allToForeign run cx r items) w
      fun x w' => (∃ ds, Leads cx r₀ ds w w') ∧ ∀ fs, x = .ok fs → ∀ f ∈ fs, w'.isPresent f := by
  cases items with
  | nil =>
    refine .inl (.pure ⟨⟨_, .refl hw⟩, ?_⟩)
    rintro fs ⟨⟩ f ⟨⟩
  | cons v rest =>
    rw [allToForeign]
    rw [NativeValue.refsIn] at hd
    have hv := gives_unless_mistagged hr h₀ v hw (hb v (List.mem_cons_self ..))
      fun d h => hd d (List.mem_append_left _ h)
    refine (hv.mono (fun ⟨p, hp, h⟩ => ⟨p, List.mem_append_left _ hp, h⟩) fun _ _ h => h).bind
      fun x w₁ h => ?_
    obtain ⟨⟨ds, hleads⟩, hpresent⟩ := h
    cases x with
    | error e => exact .inl (.pure ⟨⟨ds, hleads⟩, nofun⟩)
    | ok first =>
      have hrest := gives_all_unless_mistagged hr h₀ rest hleads.ready
        (fun u hu => hb u (List.mem_cons_of_mem _ hu))
        fun d h => (hleads.isSome_deferred? d).trans (hd d (List.mem_append_right _ h))
      refine (hrest.mono (fun ⟨p, hp, h⟩ =>
        ⟨p, List.mem_append_right _ hp, hleads.mistagged.1 h⟩) fun _ _ h => h).bind fun y w₂ h => ?_
      obtain ⟨⟨ds', hleads'⟩, hpresent'⟩ := h
      have hall := hleads.trans hw hleads'
      cases y with
      | error e => exact .inl (.pure ⟨⟨_, hall⟩, nofun⟩)
      | ok others =>
        refine .inl (.pure ⟨⟨_, hall⟩, ?_⟩)
        rintro fs ⟨⟩
        exact List.forall_mem_cons.2
          ⟨hleads'.isPresent (hpresent first rfl), hpresent' others rfl⟩

end

end Engine

/-! ## The law -/

/-- Every object in the value that converts as an instance of a class is one. -/
def World.Faithful (w : World) (r : Registry) (v : NativeValue) : Prop :=
  ∀ (key : ClassKey) (inst : InstanceId), .object key.typeId inst ∈ v.parts →
    r.encoder? key.typeId = some (.instance key) → (w.instance? inst).bind (·.class?) = some key

/-- With reliable conversions, only objects can be mistagged. -/
theorem World.Faithful.not_mistagged {w : World} {r : Registry} {v : NativeValue}
    (h : w.Faithful r v) (hr : r.Reliable) : ¬ ∃ p ∈ v.parts, w.Mistagged r p := by
  rintro ⟨p, hp, cls, he, hbad⟩
  have ht : p.typeId = cls.typeId := hr.suits _ _ he
  cases p with
  | object type inst =>
    obtain rfl : type = cls.typeId := ht
    exact hbad (h cls inst hp he)
  | _ => exact absurd ht.symm (ClassKey.typeId_ne rfl)

/-- **The probe agrees with the conversion**, for the built-in conversions and those of any classes, on a
context with such a bridge, and for every value that the constructors make.  A value that does not pass the
probe never converts, and one that does never fails for want of a conversion.  While the generated classes
still have plain prototypes, values whose objects hold what they are tagged with convert just in case they
pass the probe, and any other value that passes it converts or throws a type error. -/
theorem Reachable.canToForeign_agrees {w : World} (h : Reachable w) {cx : ContextId} {id i}
    (hb : w.bridge? cx = some (id, i)) {plans plans₀ : Plans} {keys keys₀ : List ClassKey}
    {limit limit₀ : Nat} {dynamic dynamic₀ : List TypeId}
    (h₀ : i.registry = .withClasses plans₀ keys₀ limit₀ dynamic₀) (run : Runner) {r : Registry}
    (hr : r = .withClasses plans keys limit dynamic) {v : NativeValue} (hv : v.Built) :
    (r.canToForeign v = false →
      ∀ f w', (Engine.toForeign run cx r v).run w ≠ .ok (.ok f) w') ∧
    (r.canToForeign v = true →
      ∀ e w', (Engine.toForeign run cx r v).run w ≠ .ok (.error e) w') ∧
    ((∀ e ∈ i.classes, w.PlainPrototype cx e.2) →
      (∀ d, .deferred d ∈ v.refs → (w.deferred? d).isSome) →
      (w.Faithful r v → (r.canToForeign v = true ↔
        ∃ f w', (Engine.toForeign run cx r v).run w = .ok (.ok f) w')) ∧
      (r.canToForeign v = true →
        (∃ f w', (Engine.toForeign run cx r v).run w = .ok (.ok f) w') ∨
          ∃ e w', (Engine.toForeign run cx r v).run w = .error (.thrown e) w' ∧ w'.IsTypeError e)) := by
  have hr : r.Reliable := hr ▸ .withClasses
  have h₀ : i.registry.Reliable := h₀ ▸ .withClasses
  have hfalse (hp : r.canToForeign v = false) (f w') :
      (Engine.toForeign run cx r v).run w ≠ .ok (.ok f) w' := fun hr => by
    cases hp.symm.trans (Engine.isOk_toForeign run hr).symm
  have htrue (hp : r.canToForeign v = true) (e w') :
      (Engine.toForeign run cx r v).run w ≠ .ok (.error e) w' := fun hr => by
    cases hp.symm.trans (Engine.isOk_toForeign run hr).symm
  refine ⟨hfalse, htrue, fun hplain hd => ?_⟩
  have houtcome := Engine.gives_unless_mistagged run hr h₀ v (h.ready hb hplain) hv hd
  -- A value that passes the probe converts, once it is known not to be refused.
  have hconverts (hp : r.canToForeign v = true) {P} (hg : Engine.Gives (Engine.toForeign run cx r v) w P) :
      ∃ f w', (Engine.toForeign run cx r v).run w = .ok (.ok f) w' := by
    obtain ⟨x, w', hx, -⟩ := hg
    cases x with
    | error e => exact absurd hx (htrue hp e w')
    | ok f => exact ⟨f, w', hx⟩
  refine ⟨fun hfaithful => ⟨fun hp => ?_, fun ⟨f, w', hx⟩ => ?_⟩, fun hp => ?_⟩
  · exact hconverts hp (houtcome.resolve_right fun hbad => hfaithful.not_mistagged hr hbad.1)
  · cases hp : r.canToForeign v with
    | true => rfl
    | false => exact absurd hx (hfalse hp f w')
  · exact houtcome.imp (hconverts hp) fun hbad => hbad.2

namespace Converting

theorem built_things : things.Built := by
  refine .list fun v hv => ?_
  simp only [List.mem_cons, List.not_mem_nil, or_false] at hv
  obtain rfl | rfl | rfl | rfl := hv
  · exact .int 7
  · exact .variant (.buffer _)
  · exact .object ClassKey.matrix.isBuiltin_typeId ⟨0⟩
  · refine .list fun v hv => ?_
    obtain rfl := List.mem_singleton.1 hv
    exact .string "s"

theorem faithful_things (prototype : Property) : (kept prototype).Faithful registry things := by
  intro key inst hmem _
  simp only [things, NativeValue.parts, NativeValue.partsIn, List.nil_append, List.cons_append,
    List.append_nil, List.mem_cons, List.not_mem_nil, or_false, reduceCtorEq, false_or,
    NativeValue.object.injEq] at hmem
  obtain ⟨ht, rfl⟩ := hmem
  obtain rfl := ClassKey.typeId_injective ht
  rfl

/-- A registry whose conversion of texts throws. -/
def refusing : Registry :=
  .withEncoder .base .string .refusal

/-- A context with that registry. -/
def refusingHost : World :=
  (({} : World).openContext ⟨0⟩).install ⟨0⟩ refusing

end Converting

/-- A list with a matrix in it passes the probe and converts. -/
theorem canToForeign_things : Converting.registry.canToForeign Converting.things = true ∧
    ∃ f w', (Engine.toForeign (Session.runner 1) ⟨0⟩ Converting.registry Converting.things).run
      (Converting.kept (.data (.object ⟨1⟩) false false)) = .ok (.ok f) w' := by
  have hplain : ∀ e ∈ [(ClassKey.matrix, (⟨0⟩ : ObjectId))],
      (Converting.kept (.data (.object ⟨1⟩) false false)).PlainPrototype ⟨0⟩ e.2 := by
    intro e he
    obtain rfl := List.mem_singleton.1 he
    exact Converting.plainPrototype_kept
  have hdeferreds : ∀ d, Ref.deferred d ∈ Converting.things.refs →
      ((Converting.kept (.data (.object ⟨1⟩) false false)).deferred? d).isSome := by
    intro d hd
    simp [Converting.things, NativeValue.refs, NativeValue.refsIn] at hd
  have hprobe : Converting.registry.canToForeign Converting.things = true := by decide
  obtain ⟨-, -, hagrees⟩ := (Converting.reachable_kept _).canToForeign_agrees
    (Converting.bridge?_kept _) rfl (Session.runner 1) (r := Converting.registry) rfl Converting.built_things
  obtain ⟨hiff, -⟩ := hagrees hplain hdeferreds
  exact ⟨hprobe, (hiff (Converting.faithful_things _)).1 hprobe⟩

/-- The probe does not know of conversions that throw.  A registry may have one for texts: they pass, and do
not convert.  A getter in the place of the prototype of a class may throw what it likes: a matrix passes, and
what is thrown is no type error. -/
theorem thrown_although_probed :
    (Reachable Converting.refusingHost ∧
      Converting.refusingHost.bridge? ⟨0⟩ = some (⟨0⟩, { registry := Converting.refusing }) ∧
      Converting.refusing.canToForeign (.string "x") = true ∧
      ∃ e w', (Engine.toForeign (Session.runner 1) ⟨0⟩ Converting.refusing (.string "x")).run
        Converting.refusingHost = .error (.thrown e) w') ∧
    Reachable (Converting.kept Converting.throwing) ∧
    (Converting.kept Converting.throwing).bridge? ⟨0⟩ =
      some (⟨0⟩, { registry := Converting.registry, classes := [(.matrix, ⟨0⟩)] }) ∧
    (Converting.kept Converting.throwing).Faithful Converting.registry
      (.object ClassKey.matrix.typeId ⟨0⟩) ∧
    Converting.registry.canToForeign (.object ClassKey.matrix.typeId ⟨0⟩) = true ∧
    ∃ e w', (Engine.toForeign (Session.runner 1) ⟨0⟩ Converting.registry
        (.object ClassKey.matrix.typeId ⟨0⟩)).run (Converting.kept Converting.throwing) =
          .error (.thrown e) w' ∧ ¬ w'.IsTypeError e := by
  have hhost : Reachable Converting.refusingHost :=
    ⟨{}, (Relation.ReflTransGen.single (.openContext ⟨0⟩)).tail (.install Converting.refusing rfl)⟩
  have he : Converting.refusing.encoder? (NativeValue.string "x").typeId = some .refusal := rfl
  refine ⟨⟨hhost, rfl, by decide, ?_⟩, Converting.reachable_kept _, rfl, ?_, by decide, _, _,
    Converting.run_toForeign_throwing, ?_⟩
  · obtain ⟨e, w', hr, -⟩ :=
      Engine.refuses_raiseTypeError (α := ForeignValue) Converting.refusingHost ⟨0⟩ "no strings"
    rw [Engine.toForeign_eq (Session.runner 1) (by simp) (by simp) he]
    exact ⟨e, w', Engine.run_bind_of_error hr⟩
  · intro key inst hmem _
    obtain ⟨ht, rfl⟩ := NativeValue.object.inj (List.mem_singleton.1 hmem)
    obtain rfl := ClassKey.typeId_injective ht
    rfl
  · rintro ⟨_, o, ⟨⟩, ho, -, hname⟩
    cases ho
    have herror : ForeignValue.string "Error" = .string "TypeError" := hname
    simp at herror

end Isthmus
