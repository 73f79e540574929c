import Isthmus.Bridge.Class
import Isthmus.Proofs.Run.Passive

/-!
# Proofs/Run/Growth — actions that only add

To define a class, and to give a native value a foreign side, adds objects and handles and leaves those
that are there as they are: the world `Grows`.  Nothing goes on the way, since the running action holds
what a definition may replace.

`Gives` says that an action comes to its end, and where.
-/

namespace Isthmus

/-! ## Actions that come to their end -/

namespace Engine

variable {α β : Type} {w w' : World}

/-- The action comes to its end, and the property holds of its result and of the world it leads to. -/
def Gives (m : Engine α) (w : World) (P : α → World → Prop) : Prop :=
  ∃ a w', m.run w = .ok a w' ∧ P a w'

namespace Gives

variable {m : Engine α} {P P' : α → World → Prop} {Q : β → World → Prop}

/-- What a run gives. -/
theorem intro {a : α} (hr : m.run w = .ok a w') (h : P a w') : Gives m w P :=
  ⟨a, w', hr, h⟩

theorem pure {a : α} (h : P a w) : Gives (Pure.pure a) w P :=
  ⟨a, w, rfl, h⟩

/-- One action after another: each comes to its end if the one before does. -/
theorem bind {f : α → Engine β} (hm : Gives m w P) (hf : ∀ a w', P a w' → Gives (f a) w' Q) :
    Gives (m >>= f) w Q := by
  obtain ⟨a, w', hr, h⟩ := hm
  obtain ⟨b, w'', hr', h'⟩ := hf a w' h
  exact ⟨b, w'', (run_bind_of_ok hr).trans hr', h'⟩

/-- What an action does first is known. -/
theorem step {f : α → Engine β} {a : α} (hr : m.run w = .ok a w') (hf : Gives (f a) w' Q) :
    Gives (m >>= f) w Q := by
  obtain ⟨b, w'', hr', h⟩ := hf
  exact ⟨b, w'', (run_bind_of_ok hr).trans hr', h⟩

/-- An action that looks at the world first. -/
theorem get {f : World → Engine β} (h : Gives (f w) w Q) : Gives (MonadState.get >>= f) w Q :=
  h

/-- A weaker claim about the same end. -/
theorem mono (h : Gives m w P) (hp : ∀ a w', P a w' → P' a w') : Gives m w P' := by
  obtain ⟨a, w', hr, h⟩ := h
  exact ⟨a, w', hr, hp a w' h⟩

/-- There is one way for an action to end. -/
theorem holds {a : α} (h : Gives m w P) (hr : m.run w = .ok a w') : P a w' := by
  obtain ⟨a', w'', hr', h⟩ := h
  cases hr.symm.trans hr'
  exact h

/-- An action for each item, where each finds the invariant and leaves it. -/
theorem forM {ι : Type} {f : ι → Engine PUnit} {I : World → Prop} {l : List ι} (hw : I w)
    (h : ∀ i ∈ l, ∀ w, I w → Gives (f i) w fun _ => I) : Gives (l.forM f) w fun _ => I := by
  induction l generalizing w with
  | nil => exact pure hw
  | cons i l ih =>
    refine bind (h i (List.mem_cons_self ..) w hw) fun _ w' hw' => ?_
    exact ih hw' fun i hi => h i (List.mem_cons_of_mem _ hi)

end Gives

end Engine

/-! ## Nothing goes that has an owner -/

namespace Object

/-- An own property is among the properties. -/
theorem mem_of_own? {o : Object} {name : String} {p : Property} (h : o.own? name = some p) :
    (name, p) ∈ o.properties := by
  obtain ⟨e, he, rfl⟩ := Option.map_eq_some_iff.1 h
  have hn : e.1 = name := by simpa using List.find?_some he
  exact hn ▸ List.mem_of_find?_eq_some he

/-- After a put there is the new property, and those of before. -/
theorem mem_put {o : Object} {name : String} {p : Property} {e} (h : e ∈ (o.put name p).properties) :
    e = (name, p) ∨ e ∈ o.properties := by
  simp only [put] at h
  split at h
  · obtain ⟨e', he', rfl⟩ := List.mem_map.1 h
    split
    · exact .inl rfl
    · exact .inr he'
  · obtain h | h := List.mem_append.1 h
    · exact .inr h
    · exact .inl (List.mem_singleton.1 h)

/-- A put property is found under its name, and the others under theirs. -/
theorem own?_put (o : Object) (name : String) (p : Property) (n : String) :
    (o.put name p).own? n = if n = name then some p else o.own? n := by
  rw [own?, own?, put]
  by_cases h : o.hasOwn name
  · have hp : ((fun e : String × Property => decide (e.1 = n)) ∘ fun e =>
        if e.1 = name then (name, p) else e) = fun e => decide (e.1 = n) := by
      funext e
      by_cases he : e.1 = name
      · simp [he]
      · simp [he]
    rw [if_pos h, List.find?_map, hp]
    cases hf : o.properties.find? (·.1 = n) with
    | none =>
      rw [if_neg]
      · rfl
      · rintro rfl
        obtain ⟨e, he, hn⟩ := List.any_eq_true.1 h
        exact List.find?_eq_none.1 hf e he hn
    | some e =>
      have hn : e.1 = n := by simpa using List.find?_some hf
      by_cases hname : n = name
      · simp [hn, hname]
      · simp [hn, hname]
  · have hnone : o.properties.find? (·.1 = name) = none := by
      refine List.find?_eq_none.2 fun e he hn => h ?_
      exact List.any_eq_true.2 ⟨e, he, hn⟩
    rw [if_neg h, List.find?_append]
    by_cases hname : n = name
    · subst hname
      simp [hnone]
    · simp [hname, Ne.symm hname]

end Object

namespace World

variable {w w' : World}

/-- Who is referred to by something else survives being let go. -/
theorem letGo_of_owned {refs : List Ref} (h : ∀ r ∈ refs, r ∈ w.references) : w.letGo refs = w := by
  rw [letGo]
  induction refs with
  | nil => rw [List.map_nil, release]
  | cons r refs ih =>
    have hr : w.references.contains r := List.contains_iff_mem.2 (h r (List.mem_cons_self ..))
    have hf : w.farewell (refs.map .letGo) (.letGo r) = (w, []) := by
      rw [farewell, if_pos (Bool.or_eq_true_iff.2 (.inr hr))]
    rw [List.map_cons, release, hf]
    exact ih fun r hr => h r (List.mem_cons_of_mem _ hr)

/-- What is held is referred to. -/
theorem held_subset_references (w : World) : w.held.flatten ⊆ w.references := by
  intro r hr
  simp only [references, List.mem_append, hr, or_true, true_or]

/-- The world in which the running action holds more. -/
def holding (w : World) (refs : List Ref) : World :=
  { w with
    held := match w.held with
      | frame :: outer => (refs ++ frame) :: outer
      | [] => [refs] }

/-- Holding adds to what is held. -/
theorem mem_holding {refs : List Ref} {r : Ref} :
    r ∈ (w.holding refs).held.flatten ↔ r ∈ refs ∨ r ∈ w.held.flatten := by
  rw [holding]
  cases w.held with
  | nil => simp
  | cons frame outer => simp

/-- The world with one object more, which the running action holds. -/
def adding (w : World) (o : Object) : World :=
  { w with objects := w.objects.insert o }.holding [.object ⟨w.objects.next⟩]

/-- The world in which an object has another property. -/
def putting (w : World) (id : ObjectId) (name : String) (p : Property) : World :=
  { w with objects := w.objects.modify id.index (·.put name p) }

/-! ## Growth -/

/-- A value is plain, or an object of the context. -/
def Local (w : World) (cx : ContextId) (v : ForeignValue) : Prop :=
  ∀ id, v = .object id → ∃ o, w.object? id = some o ∧ o.context = cx

/-- What reading the prototype of a class finds: a plain value or an object of the context, and no
getter. -/
def PlainPrototype (w : World) (cx : ContextId) (c : ObjectId) : Prop :=
  ∀ p own, w.lookup c "prototype" = some (p, own) →
    (∃ setter data enumerable, p = .accessor none setter data enumerable) ∨
      ∃ v writable enumerable, p = .data v writable enumerable ∧ w.Local cx v

/-- The object is a class of the context, and still has a prototype like one. -/
structure IsClass (w : World) (cx : ContextId) (c : ObjectId) : Prop where
  owned : ∃ o, w.object? c = some o ∧ o.context = cx ∧ o.isFunction
  plain : w.PlainPrototype cx c

/-- An object that was added: it belongs to the context, the running action holds what its properties
refer to, and an array is made of older objects. -/
structure Young (w : World) (cx : ContextId) (id : ObjectId) (o : Object) : Prop where
  context : o.context = cx
  held : ∀ e ∈ o.properties, e.2.refs ⊆ w.held.flatten
  nested : ∀ items, o.kind = .array items → ∀ p, .object p ∈ items → p.index < id.index

variable {cx : ContextId}

/-- An object that is there was made before the next one. -/
theorem object?_lt {id : ObjectId} {o} (h : w.object? id = some o) : id.index < w.objects.next :=
  Store.lt_next_of_get? h

/-! Being local and being a class depend on objects alone. -/

/-- A value of a context stays one as long as older objects stay. -/
theorem Local.congr {v} (hv : w.Local cx v)
    (h : ∀ id : ObjectId, id.index < w.objects.next → w'.object? id = w.object? id) :
    w'.Local cx v := by
  intro id hid
  obtain ⟨o, ho, hc⟩ := hv id hid
  exact ⟨o, (h id (object?_lt ho)).trans ho, hc⟩

/-- So does the property that is found under a name. -/
theorem lookup_congr (h : ∀ id : ObjectId, id.index < w.objects.next → w'.object? id = w.object? id)
    {id : ObjectId} (hid : id.index < w.objects.next) (name : String) :
    w'.lookup id name = w.lookup id name := by
  induction hn : id.index using Nat.strongRecOn generalizing id with
  | ind n ih =>
    subst hn
    rw [World.lookup, World.lookup, h id hid]
    cases w.object? id with
    | none => rfl
    | some o =>
      dsimp only
      cases o.own? name with
      | some p => rfl
      | none =>
        cases o.prototype with
        | none => rfl
        | some proto =>
          dsimp only
          by_cases hlt : proto.index < id.index
          · rw [if_pos hlt, if_pos hlt, ih proto.index hlt (Nat.lt_trans hlt hid) rfl]
          · rw [if_neg hlt, if_neg hlt]

/-- So does a class. -/
theorem IsClass.congr {c} (hc : w.IsClass cx c)
    (h : ∀ id : ObjectId, id.index < w.objects.next → w'.object? id = w.object? id) :
    w'.IsClass cx c := by
  obtain ⟨⟨o, ho, hcx, hf⟩, hplain⟩ := hc
  refine ⟨⟨o, (h c (object?_lt ho)).trans ho, hcx, hf⟩, fun p own hp => ?_⟩
  rw [lookup_congr h (object?_lt ho)] at hp
  obtain hget | ⟨v, writable, enumerable, rfl, hv⟩ := hplain p own hp
  · exact .inl hget
  · exact .inr ⟨v, writable, enumerable, rfl, hv.congr h⟩

/-- **A world grows**: there are more objects, handles and classes of a context, and the running action
holds more, but what was there is as it was. -/
structure Grows (cx : ContextId) (w w' : World) : Prop where
  objects_next : w.objects.next ≤ w'.objects.next
  object? : ∀ id : ObjectId, id.index < w.objects.next → w'.object? id = w.object? id
  young : ∀ id o, w'.object? id = some o → w.objects.next ≤ id.index → w'.Young cx id o
  handles_next : w.handles.next ≤ w'.handles.next
  handle? : ∀ id : HandleId, id.index < w.handles.next → w'.handle? id = w.handle? id
  held : w.held.flatten ⊆ w'.held.flatten
  instances : w'.instances = w.instances
  contexts : w'.contexts = w.contexts
  plans : w'.plans = w.plans
  deferreds : w'.deferreds = w.deferreds
  loops : w'.loops = w.loops
  installation? : ∀ id i, w.installation? id = some i → ∃ more,
    w'.installation? id = some { i with classes := i.classes ++ more } ∧
      ∀ e ∈ more, w'.IsClass cx e.2

/-- A young object stays young while it is held. -/
theorem Young.mono {id o} (h : w.Young cx id o) (hh : w.held.flatten ⊆ w'.held.flatten) :
    w'.Young cx id o where
  context := h.context
  held e he := fun _ hr => hh (h.held e he hr)
  nested := h.nested

theorem object?_adding (w : World) (o : Object) : (w.adding o).object? ⟨w.objects.next⟩ = some o := by
  rw [World.object?, adding, holding, Store.get?_insert, if_pos rfl]

namespace Grows

/-- What is there stays. -/
theorem object (h : Grows cx w w') {id o} (ho : w.object? id = some o) : w'.object? id = some o :=
  (h.object? id (object?_lt ho)).trans ho

/-- Handles stay where a world grows. -/
theorem handle (h : Grows cx w w') {id x} (hx : w.handle? id = some x) : w'.handle? id = some x :=
  (h.handle? id (Store.lt_next_of_get? hx)).trans hx

/-- So do the values of a context. -/
theorem localValue (h : Grows cx w w') {v} (hv : w.Local cx v) : w'.Local cx v :=
  hv.congr h.object?

/-- So do its classes. -/
theorem isClass (h : Grows cx w w') {c} (hc : w.IsClass cx c) : w'.IsClass cx c :=
  hc.congr h.object?

/-- Growth upon growth is growth. -/
theorem trans {w'' : World} (h : Grows cx w w') (h' : Grows cx w' w'') : Grows cx w w'' where
  objects_next := Nat.le_trans h.objects_next h'.objects_next
  object? id hid := (h'.object? id (Nat.lt_of_lt_of_le hid h.objects_next)).trans (h.object? id hid)
  young id o ho hle := by
    by_cases hlt : id.index < w'.objects.next
    · rw [h'.object? id hlt] at ho
      exact (h.young id o ho hle).mono h'.held
    · exact h'.young id o ho (Nat.not_lt.1 hlt)
  handles_next := Nat.le_trans h.handles_next h'.handles_next
  handle? id hid := (h'.handle? id (Nat.lt_of_lt_of_le hid h.handles_next)).trans (h.handle? id hid)
  held := fun _ hr => h'.held (h.held hr)
  instances := h'.instances.trans h.instances
  contexts := h'.contexts.trans h.contexts
  plans := h'.plans.trans h.plans
  deferreds := h'.deferreds.trans h.deferreds
  loops := h'.loops.trans h.loops
  installation? id i hi := by
    obtain ⟨more, hmore, hclass⟩ := h.installation? id i hi
    obtain ⟨rest, hrest, hclass'⟩ := h'.installation? id _ hmore
    refine ⟨more ++ rest, by rw [hrest, List.append_assoc], fun e he => ?_⟩
    obtain he | he := List.mem_append.1 he
    · exact h'.isClass (hclass e he)
    · exact hclass' e he

/-- No class is added where the installations stay as they are. -/
theorem installation?_of_eq (h : w'.installations = w.installations) (id : InstallationId) (i)
    (hi : w.installation? id = some i) : ∃ more,
      w'.installation? id = some { i with classes := i.classes ++ more } ∧
        ∀ e ∈ more, w'.IsClass cx e.2 := by
  rw [World.installation?, h]
  exact ⟨[], by rw [List.append_nil]; exact hi, by simp⟩

end Grows

/-- A world grows, but no class is added to the bridge. -/
structure Builds (cx : ContextId) (w w' : World) : Prop extends Grows cx w w' where
  installations : w'.installations = w.installations

namespace Builds

/-- Other things than objects, handles and instances change as they like. -/
theorem of_frame (ho : w'.objects = w.objects) (hx : w'.handles = w.handles)
    (hi : w'.installations = w.installations) (hh : w.held.flatten ⊆ w'.held.flatten)
    (hn : w'.instances = w.instances) (hc : w'.contexts = w.contexts) (hp : w'.plans = w.plans)
    (hd : w'.deferreds = w.deferreds) (hl : w'.loops = w.loops) : Builds cx w w' where
  objects_next := Nat.le_of_eq (congrArg Store.next ho.symm)
  object? id _ := by rw [World.object?, World.object?, ho]
  young id o h hle := by
    rw [World.object?, ho] at h
    exact absurd (Store.lt_next_of_get? h) (Nat.not_lt.2 hle)
  handles_next := Nat.le_of_eq (congrArg Store.next hx.symm)
  handle? id _ := by rw [World.handle?, World.handle?, hx]
  held := hh
  instances := hn
  contexts := hc
  plans := hp
  deferreds := hd
  loops := hl
  installation? := Grows.installation?_of_eq hi
  installations := hi

theorem refl (w : World) : Builds cx w w :=
  of_frame rfl rfl rfl (List.Subset.refl _) rfl rfl rfl rfl rfl

/-- What is built upon what was built is built. -/
theorem trans {w'' : World} (h : Builds cx w w') (h' : Builds cx w' w'') : Builds cx w w'' where
  toGrows := h.toGrows.trans h'.toGrows
  installations := h'.installations.trans h.installations

/-- Holding only builds. -/
theorem holding (w : World) (refs : List Ref) : Builds cx w (w.holding refs) :=
  of_frame rfl rfl rfl (fun _ hr => mem_holding.2 (.inr hr)) rfl rfl rfl rfl rfl

/-- An object is added, whose properties refer to nothing. -/
theorem inserting (w : World) {o : Object} (hc : o.context = cx)
    (hp : o.properties.flatMap (·.2.refs) = [])
    (hn : ∀ items, o.kind = .array items → ∀ p, .object p ∈ items → p.index < w.objects.next) :
    Builds cx w { w with objects := w.objects.insert o } := by
  refine { (refl w : Builds cx w w) with
    objects_next := Nat.le_succ _
    object? := fun id hid => ?_
    young := fun id o' ho' hle => ?_
    installation? := Grows.installation?_of_eq rfl }
  · rw [World.object?, World.object?, Store.get?_insert, if_neg (Nat.ne_of_lt hid)]
  · rw [World.object?, Store.get?_insert] at ho'
    split at ho'
    · next hid =>
      cases ho'
      refine ⟨hc, fun e he => ?_, fun items hk p hm => hid ▸ hn items hk p hm⟩
      rw [List.flatMap_eq_nil_iff.1 hp e he]
      exact List.nil_subset _
    · exact absurd (Store.lt_next_of_get? ho') (Nat.not_lt.2 hle)

/-- An object is added, and held. -/
theorem adding (w : World) {o : Object} (hc : o.context = cx)
    (hp : o.properties.flatMap (·.2.refs) = [])
    (hn : ∀ items, o.kind = .array items → ∀ p, .object p ∈ items → p.index < w.objects.next) :
    Builds cx w (w.adding o) :=
  (inserting w hc hp hn).trans (holding _ _)

/-- An object that was added changes. -/
theorem modify {w₀ : World} (h : Builds cx w₀ w) {id : ObjectId} (hid : w₀.objects.next ≤ id.index)
    {f : Object → Object} (hf : ∀ o, w.object? id = some o → w.Young cx id (f o)) :
    Builds cx w₀ { w with objects := w.objects.modify id.index f } where
  objects_next := h.objects_next
  object? id' hid' := by
    rw [World.object?, Store.get?_modify, if_neg (by omega)]
    exact h.object? id' hid'
  young id' o' ho' hle := by
    rw [World.object?, Store.get?_modify] at ho'
    split at ho'
    · next heq =>
      obtain ⟨o, ho, rfl⟩ := Option.map_eq_some_iff.1 ho'
      cases id
      cases id'
      cases heq
      exact (hf o ho).mono (List.Subset.refl _)
    · exact (h.young id' o' ho' hle).mono (List.Subset.refl _)
  handles_next := h.handles_next
  handle? := h.handle?
  held := h.held
  instances := h.instances
  contexts := h.contexts
  plans := h.plans
  deferreds := h.deferreds
  loops := h.loops
  installation? := Grows.installation?_of_eq h.installations
  installations := h.installations

/-- A property of an object that was added is defined. -/
theorem putting {w₀ : World} (h : Builds cx w₀ w) {id : ObjectId} (hid : w₀.objects.next ≤ id.index)
    (name : String) {p : Property} (hp : p.refs ⊆ w.held.flatten) :
    Builds cx w₀ (w.putting id name p) := by
  refine h.modify hid fun o ho => ?_
  have hy := h.young id o ho hid
  refine ⟨hy.context, fun e he => ?_, hy.nested⟩
  obtain rfl | he := Object.mem_put he
  · exact hp
  · exact hy.held e he

/-- Where something is built, bridges stay. -/
theorem bridge?_eq (h : Builds cx w w') {c : ContextId} : w'.bridge? c = w.bridge? c := by
  rw [bridge?, bridge?, context?, context?, h.contexts]
  unfold World.installation?
  rw [h.installations]

end Builds

end World

/-! ## Objects and their properties -/

namespace Engine

variable {w : World} {cx : ContextId}

/-- To hold references always succeeds. -/
theorem run_hold (refs : List Ref) : (hold refs).run w = .ok () (w.holding refs) := rfl

theorem run_allocate (o : Object) : (allocate o).run w = .ok ⟨w.objects.next⟩ (w.adding o) := rfl

/-- The check of a context succeeds for its own objects. -/
theorem run_checkOwned {id : ObjectId} {o} (h : w.object? id = some o) (hc : o.context = cx) :
    (checkOwned cx id).run w = .ok () w := by
  rw [checkOwned, run_bind_of_ok (run_object h), if_neg (by simp [hc])]
  rfl

/-- A property is defined; what it replaces is held. -/
theorem run_putOwn {id : ObjectId} {o} (h : w.object? id = some o)
    (hh : ∀ e ∈ o.properties, e.2.refs ⊆ w.held.flatten) (name : String) (p : Property) :
    (putOwn id name p).run w = .ok () (w.putting id name p) := by
  have howned : ∀ r ∈ refsOf Property.refs (o.own? name), r ∈ (w.putting id name p).references := by
    intro r hr
    refine World.held_subset_references _ ?_
    cases ho : o.own? name with
    | none =>
      rw [ho] at hr
      cases hr
    | some q =>
      rw [ho] at hr
      exact hh _ (Object.mem_of_own? ho) hr
  rw [putOwn, run_bind_of_ok (run_object h)]
  change EStateM.Result.ok () ((w.putting id name p).letGo _) = _
  rw [World.letGo_of_owned howned]

end Engine

namespace World

variable {w : World} {cx : ContextId}

/-- An object with one property more, as it is found. -/
theorem object?_putting (w : World) (t : ObjectId) (name : String) (p : Property) (id : ObjectId) :
    (w.putting t name p).object? id =
      if id = t then (w.object? id).map (·.put name p) else w.object? id := by
  rw [object?, putting, Store.get?_modify]
  cases id
  cases t
  simp only [ObjectId.mk.injEq]
  rfl

/-- A value that is no object belongs to every context. -/
theorem Local.of_plain {v : ForeignValue} (h : v.asObject? = none) : w.Local cx v := by
  rintro id rfl
  cases h

end World

end Isthmus
