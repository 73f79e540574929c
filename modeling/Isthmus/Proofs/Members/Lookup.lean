import Isthmus.Proofs.Members.Calls
import Isthmus.Proofs.Values.Instances

/-!
# Proofs/Members/Lookup — what the names of a class stand for

The members of a class, `on` and the two objects' references to each other share two tables, and the
properties have a third one on each instance.  If the declared names differ, then each stands for its own
definition (`Definition.latest?_method` and so on): only `on` hides a method, and `prototype` is the name of
something that instances need.

Reading, assigning and calling go by what `World.lookup` finds, on the object itself
(`World.Table.lookup_own`) or on its prototype (`World.Table.lookup_inherited`).
-/

namespace Isthmus

/-! ## Names -/

namespace TypeDescriptor

/-- The declared names: events have none of their own. -/
def names (d : TypeDescriptor) : List String :=
  (d.methods.filter (!·.isEvent)).map (·.name) ++ d.properties.map (·.name) ++
    d.constants.map (·.1)

/-- A name that is declared, or that has a meaning for every class. -/
def Matters (d : TypeDescriptor) (name : String) : Prop :=
  name ∈ d.names ∨ name = "on" ∨ name = "prototype"

/-- Something that is defined on the class is called `prototype`. -/
def TakesPrototype (d : TypeDescriptor) : Prop :=
  (∃ m ∈ d.methods, m.isEvent = false ∧ m.isStatic = true ∧ m.name = "prototype") ∨
    ∃ c ∈ d.constants, c.1 = "prototype"

instance (d : TypeDescriptor) : Decidable d.TakesPrototype :=
  inferInstanceAs (Decidable (_ ∨ _))

variable {d : TypeDescriptor} {m : MethodDescriptor} {p : PropertyDescriptor} {i : Nat}

theorem mem_names_of_method (hm : d.methods[i]? = some m) (he : m.isEvent = false) :
    m.name ∈ d.names := by
  refine List.mem_append_left _ (List.mem_append_left _ (List.mem_map_of_mem ?_))
  exact List.mem_filter.2 ⟨List.mem_of_getElem? hm, by rw [he]; rfl⟩

theorem mem_names_of_property (hp : d.properties[i]? = some p) : p.name ∈ d.names :=
  List.mem_append_left _
    (List.mem_append_right _ (List.mem_map_of_mem (List.mem_of_getElem? hp)))

theorem mem_names_of_constant {e : String × Constant} (he : e ∈ d.constants) : e.1 ∈ d.names :=
  List.mem_append_right _ (List.mem_map_of_mem he)

/-- No property has the name of a method. -/
theorem not_property_of_method (hn : d.names.Nodup) (hm : d.methods[i]? = some m)
    (he : m.isEvent = false) : m.name ∉ d.properties.map (·.name) := by
  intro hp
  have hdisjoint := (List.nodup_append.1 (List.nodup_append.1 hn).1).2.2
  refine hdisjoint _ (List.mem_map_of_mem (List.mem_filter.2 ⟨List.mem_of_getElem? hm, ?_⟩)) _ hp rfl
  rw [he]
  rfl

end TypeDescriptor

/-! ## Definitions of members -/

namespace Engine

variable (key : ClassKey) (d : TypeDescriptor)

/-- The definition for a method and its index. -/
def methodDefinition (m : MethodDescriptor × Nat) : Definition :=
  if m.1.isStatic then
    { name := m.1.name, member := .method (.member key .invokeStatic) m.2, isStatic := true }
  else { name := m.1.name, member := .method (.member key .invoke) m.2 }

/-- The definition of `on`. -/
def onDefinition : Definition where
  name := "on"
  member := .method (.member key .on) 0

/-- The definition for a property and its index. -/
def propertyDefinition (p : PropertyDescriptor × Nat) : Definition where
  name := p.1.name
  member := .accessor
    (if p.1.readable then some (.reader key) else none)
    (if p.1.writable then some (.writer key) else none) p.2

/-- There is a definition for each method that is no event. -/
theorem methodDefinitions_eq : methodDefinitions key d =
    (d.methods.zipIdx.filter (!·.1.isEvent)).map (methodDefinition key) := rfl

/-- There is one for each property. -/
theorem propertyDefinitions_eq :
    propertyDefinitions key d = d.properties.zipIdx.map (propertyDefinition key) := rfl

@[simp] theorem methodDefinition_name (m : MethodDescriptor × Nat) :
    (methodDefinition key m).name = m.1.name := by
  rw [methodDefinition]
  split
  · rfl
  · rfl

@[simp] theorem methodDefinition_isStatic (m : MethodDescriptor × Nat) :
    (methodDefinition key m).isStatic = m.1.isStatic := by
  rw [methodDefinition]
  split
  · next h => exact h.symm
  · next h => exact (Bool.eq_false_iff.2 h).symm

/-- Definitions of methods have their names. -/
theorem names_methodDefinitions : (methodDefinitions key d).map (·.name) =
    (d.methods.filter (!·.isEvent)).map (·.name) := by
  have hname : (fun e : Definition => e.name) ∘ methodDefinition key =
      (fun m : MethodDescriptor => m.name) ∘ Prod.fst := funext (methodDefinition_name key)
  have hfilter : (d.methods.zipIdx.filter (!·.1.isEvent)).map Prod.fst =
      d.methods.filter (!·.isEvent) := by
    conv => rhs; rw [← List.zipIdx_map_fst 0 d.methods, List.filter_map]
    rfl
  rw [methodDefinitions_eq, List.map_map, hname, ← List.map_map, hfilter]

/-- Definitions of properties have theirs. -/
theorem names_propertyDefinitions :
    (propertyDefinitions key d).map (·.name) = d.properties.map (·.name) := by
  have hname : (fun e : Definition => e.name) ∘ propertyDefinition key =
      (fun p : PropertyDescriptor => p.name) ∘ Prod.fst := rfl
  rw [propertyDefinitions_eq, List.map_map, hname, ← List.map_map, List.zipIdx_map_fst]

variable {key d} {cx : ContextId} {r : Registry} {es : List (String × Constant)}
  {constants : List Definition}

/-- Definitions of constants have theirs. -/
theorem names_constants (h : List.Forall₂ (ConstantDefinition cx r) es constants) :
    constants.map (·.name) = es.map (·.1) := by
  induction h with
  | nil => rfl
  | cons he _ ih =>
    obtain ⟨-, -, -, -, -, rfl⟩ := he
    rw [List.map_cons, List.map_cons, ih]

theorem isStatic_constants (h : List.Forall₂ (ConstantDefinition cx r) es constants) :
    ∀ c ∈ constants, c.isStatic = true := by
  induction h with
  | nil => exact nofun
  | cons he _ ih =>
    obtain ⟨-, -, -, -, -, rfl⟩ := he
    exact List.forall_mem_cons.2 ⟨rfl, ih⟩

/-- Each constant has its definition. -/
theorem exists_constant (h : List.Forall₂ (ConstantDefinition cx r) es constants) {e}
    (he : e ∈ es) : ∃ c ∈ constants, ConstantDefinition cx r e c := by
  induction h with
  | nil => cases he
  | cons hc _ ih =>
    obtain rfl | he := List.mem_cons.1 he
    · exact ⟨_, List.mem_cons_self .., hc⟩
    · obtain ⟨c, hmem, hc⟩ := ih he
      exact ⟨c, List.mem_cons_of_mem _ hmem, hc⟩

namespace Definition

variable {m : MethodDescriptor} {p : PropertyDescriptor} {i : Nat}

/-- What is declared is told apart by its name. -/
theorem eq_of_name_eq (hn : d.names.Nodup)
    (hc : List.Forall₂ (ConstantDefinition cx r) d.constants constants) {a b : Definition}
    (ha : a ∈ methodDefinitions key d ++ constants) (hb : b ∈ methodDefinitions key d ++ constants)
    (h : a.name = b.name) : a = b := by
  have hnames : ((methodDefinitions key d ++ constants).map (·.name)).Nodup := by
    rw [List.map_append, names_methodDefinitions, names_constants hc]
    exact hn.sublist ((List.sublist_append_left _ _).append (.refl _))
  exact List.inj_on_of_nodup_map hnames ha hb h

theorem mem_methodDefinitions (hm : d.methods[i]? = some m) (he : m.isEvent = false) :
    methodDefinition key (m, i) ∈ methodDefinitions key d := by
  refine List.mem_map_of_mem (List.mem_filter.2 ⟨?_, by rw [he]; rfl⟩)
  exact List.mk_mem_zipIdx_iff_getElem?.2 hm

theorem mem_onDefinitions {e : Definition} (h : e ∈ onDefinitions key d) :
    d.hasEvents = true ∧ e = onDefinition key := by
  rw [onDefinitions] at h
  split at h
  · next he => exact ⟨he, List.mem_singleton.1 h⟩
  · cases h

/-- What is defined on the class is declared. -/
theorem mem_of_isStatic {e : Definition} (he : e.isStatic = true)
    (h : e ∈ methodDefinitions key d ++ onDefinitions key d ++ constants) :
    e ∈ methodDefinitions key d ++ constants := by
  rw [List.mem_append, List.mem_append] at h
  obtain (h | h) | h := h
  · exact List.mem_append_left _ h
  · obtain ⟨-, rfl⟩ := mem_onDefinitions h
    cases he
  · exact List.mem_append_right _ h

/-- The name of a method stands for the method, unless `on` hides it. -/
theorem latest?_method (hn : d.names.Nodup)
    (hc : List.Forall₂ (ConstantDefinition cx r) d.constants constants)
    (hm : d.methods[i]? = some m) (he : m.isEvent = false) (hs : m.isStatic = false)
    (hon : ¬ (d.hasEvents = true ∧ m.name = "on")) :
    latest? (!·.isStatic) (methodDefinitions key d ++ onDefinitions key d ++ constants) m.name =
      some (methodDefinition key (m, i)) := by
  have hmem : methodDefinition key (m, i) ∈ methodDefinitions key d := mem_methodDefinitions hm he
  have hname := methodDefinition_name key (m, i)
  rw [← hname]
  refine latest?_of_unique (List.mem_append_left _ (List.mem_append_left _ hmem)) ?_ ?_
  · simp [hs]
  intro e hmem' hs' hname'
  rw [List.mem_append, List.mem_append] at hmem'
  obtain (h | h) | h := hmem'
  · exact eq_of_name_eq hn hc (List.mem_append_left _ h) (List.mem_append_left _ hmem) hname'
  · obtain ⟨hevents, rfl⟩ := mem_onDefinitions h
    exact absurd ⟨hevents, (hname'.trans hname).symm⟩ hon
  · rw [isStatic_constants hc e h] at hs'
    cases hs'

/-- The name of a static method stands for it. -/
theorem latest?_static (hn : d.names.Nodup)
    (hc : List.Forall₂ (ConstantDefinition cx r) d.constants constants)
    (hm : d.methods[i]? = some m) (he : m.isEvent = false) (hs : m.isStatic = true) :
    latest? (·.isStatic) (methodDefinitions key d ++ onDefinitions key d ++ constants) m.name =
      some (methodDefinition key (m, i)) := by
  have hmem : methodDefinition key (m, i) ∈ methodDefinitions key d := mem_methodDefinitions hm he
  rw [← methodDefinition_name key (m, i)]
  refine latest?_of_unique (List.mem_append_left _ (List.mem_append_left _ hmem)) ?_ ?_
  · simp [hs]
  intro e hmem' hs' hname'
  exact eq_of_name_eq hn hc (mem_of_isStatic hs' hmem') (List.mem_append_left _ hmem) hname'

/-- The name of a constant stands for it. -/
theorem latest?_constant (hn : d.names.Nodup)
    (hc : List.Forall₂ (ConstantDefinition cx r) d.constants constants) {c : Definition}
    (hmem : c ∈ constants) :
    latest? (·.isStatic) (methodDefinitions key d ++ onDefinitions key d ++ constants) c.name =
      some c := by
  refine latest?_of_unique (List.mem_append_right _ hmem) (isStatic_constants hc c hmem) ?_
  intro e hmem' hs' hname'
  exact eq_of_name_eq hn hc (mem_of_isStatic hs' hmem') (List.mem_append_right _ hmem) hname'

/-- Where there are events, `on` stands for their channels, also if a method is called so. -/
theorem latest?_on (hc : List.Forall₂ (ConstantDefinition cx r) d.constants constants)
    (hevents : d.hasEvents = true) :
    latest? (!·.isStatic) (methodDefinitions key d ++ onDefinitions key d ++ constants) "on" =
      some (onDefinition key) := by
  have hconstants : latest? (!·.isStatic) constants "on" = none := by
    refine latest?_eq_none fun e he hs => ?_
    rw [isStatic_constants hc e he] at hs
    cases hs
  have hon : onDefinitions key d = [onDefinition key] := if_pos hevents
  rw [latest?_append, hconstants, latest?_append, hon]
  rfl

/-- The class keeps its prototype. -/
theorem latest?_prototype (hc : List.Forall₂ (ConstantDefinition cx r) d.constants constants)
    (hp : ¬ d.TakesPrototype) :
    latest? (·.isStatic) (methodDefinitions key d ++ onDefinitions key d ++ constants) "prototype" =
      none := by
  refine latest?_eq_none fun e hmem hs hname => hp ?_
  obtain h | h := List.mem_append.1 (mem_of_isStatic hs hmem)
  · obtain ⟨⟨m, i⟩, hm, rfl⟩ := List.mem_map.1 h
    obtain ⟨hm, he⟩ := List.mem_filter.1 hm
    refine .inl ⟨m, List.mem_of_getElem? (List.mk_mem_zipIdx_iff_getElem?.1 hm), ?_, ?_, ?_⟩
    · rwa [Bool.not_eq_true'] at he
    · exact (methodDefinition_isStatic key (m, i)).symm.trans hs
    · exact (methodDefinition_name key (m, i)).symm.trans hname
  · have : e.name ∈ d.constants.map (·.1) := names_constants hc ▸ List.mem_map_of_mem h
    obtain ⟨c, hmem, hc⟩ := List.mem_map.1 this
    exact .inr ⟨c, hmem, hc.trans hname⟩

/-- The name of a property stands for it. -/
theorem latest?_property (hn : d.names.Nodup) (hp : d.properties[i]? = some p) :
    latest? (fun _ => true) (propertyDefinitions key d) p.name =
      some (propertyDefinition key (p, i)) := by
  have hnames : ((propertyDefinitions key d).map (·.name)).Nodup := by
    rw [names_propertyDefinitions]
    exact (List.nodup_append.1 (List.nodup_append.1 hn).1).2.1
  have hmem : propertyDefinition key (p, i) ∈ propertyDefinitions key d :=
    List.mem_map_of_mem (List.mk_mem_zipIdx_iff_getElem?.2 hp)
  have hunique : ∀ e ∈ propertyDefinitions key d, true = true →
      e.name = (propertyDefinition key (p, i)).name → e = propertyDefinition key (p, i) :=
    fun e he _ hname => List.inj_on_of_nodup_map hnames he hmem hname
  exact latest?_of_unique hmem rfl hunique

/-- No definition of a property has the name of none. -/
theorem latest?_no_property {name : String} (hp : name ∉ d.properties.map (·.name)) :
    latest? (fun _ => true) (propertyDefinitions key d) name = none := by
  refine latest?_eq_none fun e he _ hname => hp ?_
  rw [← names_propertyDefinitions key d, ← hname]
  exact List.mem_map_of_mem he

end Definition

end Engine

/-! ## Looking up -/

namespace World

open Engine

variable {w : World} {cx : ContextId} {since : Nat} {names : String → Prop} {kind : ObjectKind}
  {prototype : Option ObjectId} {before : String → Option Property}
  {last : String → Option Definition} {id : ObjectId} {name : String} {d : Definition}

/-- A name of an object stands for its definition there. -/
theorem Table.lookup_own (h : Table cx since names kind prototype before last w id)
    (hn : names name) (hd : last name = some d) :
    ∃ p, w.lookup id name = some (p, true) ∧ d.Makes cx since w p := by
  obtain ⟨o, ho, -, -, -, hown⟩ := h
  have hholds := hown name hn
  rw [hd] at hholds
  obtain ⟨p, hp, hm⟩ := hholds
  refine ⟨p, ?_, hm⟩
  rw [lookup, ho]
  simp only [hp]

/-- A name that an object has no property of stands for the definition on its prototype. -/
theorem Table.lookup_inherited {proto : ObjectId} {since' kind' prototype' before' last'}
    (h : Table cx since' names kind (some proto) before last w id) (hn : names name)
    (hb : before name = none) (hd : last name = none) (hlt : proto.index < id.index)
    (hp : Table cx since names kind' prototype' before' last' w proto)
    (hd' : last' name = some d) :
    ∃ p, w.lookup id name = some (p, false) ∧ d.Makes cx since w p := by
  obtain ⟨o, ho, -, -, hproto, hown⟩ := h
  have hholds := hown name hn
  rw [hb, hd] at hholds
  have hnone : o.own? name = none := hholds
  obtain ⟨p, hl, hm⟩ := hp.lookup_own hn hd'
  refine ⟨p, ?_, hm⟩
  rw [lookup, ho]
  simp only [hnone, hproto, if_pos hlt, hl, Option.map_some]

end World

/-! ## Reading, assigning and calling -/

namespace Engine

open World

variable {w : World} {cx : ContextId} {id : ObjectId} {o : Object} {name : String} {own : Bool}
  {enumerable : Bool} {data : Nat} (run : Runner)

theorem arrayAnswer?_of_items? (hi : o.items? = none) (name : String) :
    arrayAnswer? o name = none := by
  rw [arrayAnswer?, hi]
  rfl

/-- A data property is read as it is. -/
theorem run_getProperty_data (ho : w.object? id = some o) (hc : o.context = cx)
    (hi : o.items? = none) {v writable}
    (hl : w.lookup id name = some (.data v writable enumerable, own)) :
    (getProperty run cx id name).run w = .ok v (w.holding v.refs) := by
  rw [getProperty, run_bind_of_ok (run_checkOwned ho hc), run_bind_of_ok (run_object ho),
    arrayAnswer?_of_items? hi, run_get_bind, hl]
  rfl

/-- A property without a getter is undefined. -/
theorem run_getProperty_no_getter (ho : w.object? id = some o) (hc : o.context = cx)
    (hi : o.items? = none) {setter}
    (hl : w.lookup id name = some (.accessor none setter data enumerable, own)) :
    (getProperty run cx id name).run w = .ok .undefined w := by
  rw [getProperty, run_bind_of_ok (run_checkOwned ho hc), run_bind_of_ok (run_object ho),
    arrayAnswer?_of_items? hi, run_get_bind, hl]
  rfl

/-- Assigning a property that has a setter runs it. -/
theorem run_setProperty_setter (ho : w.object? id = some o) (hc : o.context = cx) {getter setter}
    (hl : w.lookup id name = some (.accessor getter (some setter) data enumerable, own))
    (v : ForeignValue) :
    (setProperty run cx id name v).run w =
      (do let _ ← run.call cx setter.callback { receiver := .object id, args := [v], data }).run
        w := by
  rw [setProperty, run_bind_of_ok (run_checkOwned ho hc), run_get_bind, hl]

/-- One without a setter is not assigned. -/
theorem run_setProperty_no_setter (ho : w.object? id = some o) (hc : o.context = cx) {getter}
    (hl : w.lookup id name = some (.accessor getter none data enumerable, own)) (v : ForeignValue) :
    (setProperty run cx id name v).run w =
      (raiseTypeError cx ("Cannot set property " ++ name ++ " which has only a getter") :
        Engine Unit).run w := by
  rw [setProperty, run_bind_of_ok (run_checkOwned ho hc), run_get_bind, hl]

/-- A function is called with its code. -/
theorem run_callable {f : ObjectId} {fo : Object} {label code} (hf : w.object? f = some fo)
    (hk : fo.kind = .function label code data) :
    (callable cx (.object f)).run w = .ok (f, code, data) w := by
  rw [callable, run_get_bind]
  simp only [hf, Option.bind_some, Object.function?, hk]
  rfl

/-- Calling what is not there throws. -/
theorem run_callMethod_missing (ho : w.object? id = some o) (hc : o.context = cx)
    (hi : o.items? = none) (hl : w.lookup id name = none) (args : List ForeignValue) :
    (callMethod run cx id name args).run w =
      (raiseTypeError cx (name ++ " is not a function") : Engine ForeignValue).run w := by
  have hget : (getProperty run cx id name).run w = .ok .undefined w := by
    rw [getProperty, run_bind_of_ok (run_checkOwned ho hc), run_bind_of_ok (run_object ho),
      arrayAnswer?_of_items? hi, run_get_bind, hl]
    rfl
  rw [callMethod, run_bind_of_ok hget]
  rfl

/-- Calling a method runs the code of the function that its name stands for. -/
theorem run_callMethod (ho : w.object? id = some o) (hc : o.context = cx) (hi : o.items? = none)
    {f : ObjectId} {fo : Object} {label code writable}
    (hl : w.lookup id name = some (.data (.object f) writable enumerable, own))
    (hf : w.object? f = some fo) (hcf : fo.context = cx)
    (hk : fo.kind = .function label code data) (args : List ForeignValue) :
    (callMethod run cx id name args).run w =
      (run.call cx code { receiver := .object id, args, data }).run (w.holding [.object f]) := by
  have hf' : (w.holding [.object f]).object? f = some fo := hf
  have hfunction : (w.holding [.object f]).isFunction (.object f) = true := by
    rw [isFunction, ForeignValue.asObject?, Option.bind_some, hf', Option.map_some,
      Option.getD_some, Object.isFunction, Object.function?, hk]
    rfl
  rw [callMethod, run_bind_of_ok (run_getProperty_data run ho hc hi hl), run_get_bind]
  simp only [hfunction, ForeignValue.refs]
  rw [if_neg (by simp)]
  change (call run cx (.object f) (.object id) args).run _ = _
  rw [call, run_bind_of_ok (run_callable hf' hk), run_bind_of_ok (run_checkOwned hf' hcf)]

end Engine

/-! ## Generated classes -/

namespace World

open Engine

variable {u w w' : World} {cx : ContextId} {r : Registry} {key : ClassKey} {d : TypeDescriptor}
  {cls proto : ObjectId} {since : Nat} {names : String → Prop}

/-- **What was added since then is as it was left**: it is there, and the names stand for what they stood
for. -/
structure Keeps (since : Nat) (names : String → Prop) (w w' : World) : Prop where
  untouched : ∀ id : ObjectId, since ≤ id.index → Untouched names w w' id
  plans : w'.plans = w.plans

theorem Keeps.refl (since : Nat) (names : String → Prop) (w : World) : Keeps since names w w where
  untouched _ _ o ho := ⟨o, ho, rfl, rfl, rfl, fun _ _ => rfl⟩
  plans := rfl

/-- Objects that were there stay as they were. -/
theorem Keeps.older (h : Keeps since names w u)
    (ho : ∀ id : ObjectId, id.index < u.objects.next → w'.object? id = u.object? id)
    (hp : w'.plans = u.plans) : Keeps since names w w' where
  untouched id hle o ho' := by
    obtain ⟨o', hu, hrest⟩ := h.untouched id hle o ho'
    exact ⟨o', (ho id (object?_lt hu)).trans hu, hrest⟩
  plans := hp.trans h.plans

/-- **A class is as it was generated** from a descriptor: its two objects have the tables for the members
there. -/
structure Generated (cx : ContextId) (r : Registry) (key : ClassKey) (d : TypeDescriptor)
    (cls proto : ObjectId) (since : Nat) (w : World) : Prop where
  descriptor : w.plans.descriptor key = d
  tables : ∃ constants, List.Forall₂ (ConstantDefinition cx r) d.constants constants ∧
    Tables cx since d.Matters d.name (.member key .construct) 0
      (methodDefinitions key d ++ onDefinitions key d ++ constants) w cls proto

/-- A class that was generated stays so as long as nobody redefines its members. -/
theorem generated (h : (generateClass cx r key).run w = .ok cls w')
    (hd : w.plans.descriptor key = d) : ∃ proto, ∀ v, Keeps w.objects.next d.Matters w' v →
      Generated cx r key d cls proto w.objects.next v := by
  subst hd
  obtain ⟨hbuilds, hcls, constants, proto, hconstants, hproto, ht⟩ := generateClass_tables h
  refine ⟨proto, fun v hk => ⟨?_, constants, hconstants, ?_, ?_⟩⟩
  · rw [hk.plans, hbuilds.plans]
  · exact ht.ofClass.untouched (hk.untouched cls hcls) (Untouched.stays hk.untouched)
      fun _ _ => trivial
  · exact ht.ofPrototype.untouched (hk.untouched proto hproto) (Untouched.stays hk.untouched)
      fun _ _ => trivial

end World

end Isthmus
