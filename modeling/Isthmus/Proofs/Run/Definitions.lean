import Isthmus.Proofs.Run.Growth
import Mathlib.Data.List.Forall2

/-!
# Proofs/Run/Definitions — what definitions leave on objects

Definitions are made one after the other, so the last one of a name is the one that an object has
(`World.Defined`, `World.Table`).  A class is two objects: the function, on which the static definitions
land after its `prototype`, and the prototype, on which all others land after its `constructor`
(`World.Tables`).  A definition called like one of the two replaces it.

* `World.gives_tables` — the definition of a class.
* `Engine.generateClass_tables` — a class that is generated from a descriptor.
-/

namespace Isthmus

/-! ## Definitions -/

namespace Engine.Definition

/-- A definition that is no accessor, and whose value is no object. -/
def IsPlain (d : Definition) : Prop :=
  match d.member with
  | .method .. => True
  | .value v => v.asObject? = none
  | .accessor .. => False

theorem IsPlain.value {d : Definition} (h : d.IsPlain) {v : ForeignValue} (hm : d.member = .value v) :
    v.asObject? = none := by
  rw [IsPlain, hm] at h
  exact h

/-- The property that a definition has made; its function is there, and is a new object. -/
def Makes (d : Definition) (cx : ContextId) (since : Nat) (w : World) (p : Property) : Prop :=
  match d.member with
  | .method code data => ∃ f o, p = .data (.object f) d.writable d.enumerable ∧
      since ≤ f.index ∧ w.object? f = some o ∧ o.context = cx ∧ o.kind = .function d.name code data
  | .accessor getter setter data => p = .accessor getter setter data d.enumerable
  | .value v => p = .data v d.writable d.enumerable

/-- The last definition of a name among those that count. -/
def latest? (counts : Definition → Bool) (ds : List Definition) (name : String) :
    Option Definition :=
  ds.reverse.find? fun d => counts d && d.name = name

variable {counts : Definition → Bool} {d : Definition} {ds : List Definition} {name : String}

/-- Of two lists of definitions the later counts. -/
theorem latest?_append (counts : Definition → Bool) (ds ds' : List Definition) (name : String) :
    latest? counts (ds ++ ds') name = (latest? counts ds' name).or (latest? counts ds name) := by
  rw [latest?, List.reverse_append, List.find?_append]
  rfl

theorem latest?_cons (counts : Definition → Bool) (d : Definition) (ds : List Definition)
    (name : String) :
    latest? counts (d :: ds) name = (latest? counts ds name).or (latest? counts [d] name) :=
  latest?_append counts [d] ds name

/-- The latest is one of the list, and has the name. -/
theorem latest?_mem (h : latest? counts ds name = some d) :
    d ∈ ds ∧ counts d = true ∧ d.name = name := by
  have hd := List.find?_some h
  rw [Bool.and_eq_true, decide_eq_true_eq] at hd
  exact ⟨List.mem_reverse.1 (List.mem_of_find?_eq_some h), hd⟩

/-- A definition that is the only one of its name is the last one. -/
theorem latest?_of_unique (hd : d ∈ ds) (hc : counts d = true)
    (hu : ∀ d' ∈ ds, counts d' = true → d'.name = d.name → d' = d) :
    latest? counts ds d.name = some d := by
  cases h : latest? counts ds d.name with
  | none =>
    have := List.find?_eq_none.1 h d (List.mem_reverse.2 hd)
    simp [hc] at this
  | some d' =>
    obtain ⟨hmem, hc', hn⟩ := latest?_mem h
    rw [hu d' hmem hc' hn]

/-- Where none has the name there is no latest. -/
theorem latest?_eq_none (hu : ∀ d ∈ ds, counts d = true → d.name ≠ name) :
    latest? counts ds name = none := by
  cases h : latest? counts ds name with
  | none => rfl
  | some d =>
    obtain ⟨hmem, hc, hn⟩ := latest?_mem h
    exact absurd hn (hu d hmem hc)

end Engine.Definition

/-! ## What definitions do to objects -/

namespace World

open Engine

variable {w₀ w w' w'' : World} {cx : ContextId} {since : Nat}

/-- Objects that are not older are still there, and are what they were. -/
def Stays (since : Nat) (w w' : World) : Prop :=
  ∀ id o, since ≤ id.index → w.object? id = some o → ∃ o', w'.object? id = some o' ∧
    o'.context = o.context ∧ o'.kind = o.kind

/-- The property of a name after definitions: what the last of them made, or what there was before. -/
def Holds (cx : ContextId) (since : Nat) (w : World) (before : Option Property)
    (d? : Option Definition) (after : Option Property) : Prop :=
  match d? with
  | some d => ∃ p, after = some p ∧ d.Makes cx since w p
  | none => after = before

/-- Definitions have been made, each on its target: the last one of a name is the one that an object has.
Besides properties, objects are as they were. -/
structure Defined (cx : ContextId) (since : Nat) (target : Definition → ObjectId)
    (ds : List Definition) (w w' : World) : Prop where
  frame : ∃ objects held, w' = { w with objects, held }
  object : ∀ id o, w.object? id = some o → ∃ o', w'.object? id = some o' ∧
    o'.context = o.context ∧ o'.kind = o.kind ∧ o'.prototype = o.prototype ∧
    o'.attachment = o.attachment ∧
    ∀ name, Holds cx since w' (o.own? name) (Definition.latest? (target · = id) ds name)
      (o'.own? name)

/-- What a definition makes lasts. -/
theorem Makes.mono {d : Definition} {p : Property} (h : d.Makes cx since w p)
    (hs : Stays since w w') : d.Makes cx since w' p := by
  rw [Definition.Makes] at h ⊢
  split at h
  · obtain ⟨f, o, hp, hf, ho, hc, hk⟩ := h
    obtain ⟨o', ho', hc', hk'⟩ := hs f o hf ho
    exact ⟨f, o', hp, hf, ho', hc'.trans hc, hk'.trans hk⟩
  · exact h
  · exact h

/-- What a plain definition makes is a plain value or an object of the context. -/
theorem Makes.local_of_isPlain {d : Definition} {p : Property} (h : d.Makes cx since w p)
    (hd : d.IsPlain) :
    ∃ v writable enumerable, p = .data v writable enumerable ∧ w.Local cx v := by
  rw [Definition.Makes] at h
  rw [Definition.IsPlain] at hd
  split at h
  · obtain ⟨f, o, rfl, -, ho, hc, -⟩ := h
    refine ⟨_, _, _, rfl, ?_⟩
    rintro id ⟨⟩
    exact ⟨o, ho, hc⟩
  · next hm =>
    rw [hm] at hd
    cases hd
  · next hm =>
    rw [hm] at hd
    exact ⟨_, _, _, h, .of_plain hd⟩

namespace Holds

variable {before p after : Option Property} {d? d'? : Option Definition}

/-- What an object holds lasts. -/
theorem mono (h : Holds cx since w before d? p) (hs : Stays since w w') :
    Holds cx since w' before d? p := by
  cases d? with
  | none => exact h
  | some d =>
    obtain ⟨p, hp, hm⟩ := h
    exact ⟨p, hp, Makes.mono hm hs⟩

/-- Definitions one after the other: the later hold, and of the earlier what these leave. -/
theorem trans (h : Holds cx since w before d? p) (h' : Holds cx since w' p d'? after)
    (hs : Stays since w w') : Holds cx since w' before (d'?.or d?) after := by
  cases d'? with
  | some d => exact h'
  | none =>
    obtain rfl : after = p := h'
    exact h.mono hs

end Holds

namespace Defined

variable {target : Definition → ObjectId} {d : Definition} {ds : List Definition}

theorem nil (w : World) : Defined cx since target [] w w where
  frame := ⟨w.objects, w.held, rfl⟩
  object _ o ho := ⟨o, ho, rfl, rfl, rfl, rfl, fun _ => rfl⟩

theorem stays (h : Defined cx since target ds w w') : Stays since w w' := by
  intro id o _ ho
  obtain ⟨o', ho', hc, hk, -⟩ := h.object id o ho
  exact ⟨o', ho', hc, hk⟩

/-- One definition and then others. -/
theorem cons (h : Defined cx since target [d] w w') (h' : Defined cx since target ds w' w'') :
    Defined cx since target (d :: ds) w w'' := by
  obtain ⟨objects, held, rfl⟩ := h.frame
  obtain ⟨objects', held', rfl⟩ := h'.frame
  refine ⟨⟨objects', held', rfl⟩, fun id o ho => ?_⟩
  obtain ⟨o', ho', hc, hk, hp, ha, hown⟩ := h.object id o ho
  obtain ⟨o'', ho'', hc', hk', hp', ha', hown'⟩ := h'.object id o' ho'
  refine ⟨o'', ho'', hc'.trans hc, hk'.trans hk, hp'.trans hp, ha'.trans ha, fun name => ?_⟩
  rw [Definition.latest?_cons]
  exact (hown name).trans (hown' name) h'.stays

/-- A property is defined in a world that has got more objects. -/
theorem put (hf : ∃ objects held, w' = { w with objects, held })
    (hold : ∀ id o, w.object? id = some o → w'.object? id = some o) {p : Property}
    (hm : d.Makes cx since (w'.putting (target d) d.name p) p) :
    Defined cx since target [d] w (w'.putting (target d) d.name p) := by
  obtain ⟨objects, held, rfl⟩ := hf
  refine ⟨⟨_, held, rfl⟩, fun id o ho => ?_⟩
  rw [object?_putting, hold id o ho]
  by_cases ht : id = target d
  · refine ⟨o.put d.name p, if_pos ht, rfl, rfl, rfl, rfl, fun name => ?_⟩
    rw [Object.own?_put]
    by_cases hn : name = d.name
    · have hlast : Definition.latest? (target · = id) [d] name = some d := by
        simp [Definition.latest?, ht, hn]
      rw [hlast, if_pos hn]
      exact ⟨p, rfl, hm⟩
    · have hlast : Definition.latest? (target · = id) [d] name = none := by
        simp [Definition.latest?, Ne.symm hn]
      rw [hlast, if_neg hn]
      rfl
  · refine ⟨o, if_neg ht, rfl, rfl, rfl, rfl, fun name => ?_⟩
    have hlast : Definition.latest? (target · = id) [d] name = none := by
      simp [Definition.latest?, Ne.symm ht]
    rw [hlast]
    rfl

end Defined

/-! ## Defining properties -/

/-- An object that was added is given a property. -/
theorem Builds.gives_putOwn (h : Builds cx w₀ w) {t : ObjectId} (hle : w₀.objects.next ≤ t.index)
    (ht : ∃ o, w.object? t = some o) (name : String) {p : Property}
    (hp : p.refs ⊆ w.held.flatten) :
    Gives (putOwn t name p) w fun _ w' => w' = w.putting t name p ∧ Builds cx w₀ w' := by
  obtain ⟨o, ho⟩ := ht
  exact .intro (run_putOwn ho (h.young t o ho hle).held name p) ⟨rfl, h.putting hle name hp⟩

/-- To define builds one property, of the object that the definition is for. -/
theorem Builds.gives_define (h : Builds cx w₀ w) (target : Definition → ObjectId) {d : Definition}
    (hle : w₀.objects.next ≤ (target d).index) (ht : ∃ o, w.object? (target d) = some o)
    (hd : ∀ v, d.member = .value v → v.asObject? = none) :
    Gives (define cx (target d) d) w fun _ w' =>
      Builds cx w₀ w' ∧ Defined cx w₀.objects.next target [d] w w' := by
  rw [define]
  cases hm : d.member with
  | accessor getter setter data =>
    refine (h.gives_putOwn hle ht d.name (List.nil_subset _)).mono ?_
    rintro _ _ ⟨rfl, hb⟩
    refine ⟨hb, .put ⟨_, _, rfl⟩ (fun _ _ ho => ho) ?_⟩
    rw [Definition.Makes, hm]
  | value v =>
    have hv : (Property.data v d.writable d.enumerable).refs ⊆ w.held.flatten := by
      cases v with
      | object id => cases hd _ hm
      | _ => exact List.nil_subset _
    refine (h.gives_putOwn hle ht d.name hv).mono ?_
    rintro _ _ ⟨rfl, hb⟩
    refine ⟨hb, .put ⟨_, _, rfl⟩ (fun _ _ ho => ho) ?_⟩
    rw [Definition.Makes, hm]
  | method code data =>
    let o : Object := { context := cx, kind := .function d.name code data }
    have hadd : Builds cx w (w.adding o) := .adding w rfl rfl (by rintro items ⟨⟩)
    have hframe : ∃ objects held, w.adding o = { w with objects, held } := ⟨_, _, rfl⟩
    obtain ⟨target_o, hto⟩ := ht
    have hheld : (Property.data (.object ⟨w.objects.next⟩) d.writable d.enumerable).refs ⊆
        (w.adding o).held.flatten := fun r hr => mem_holding.2 (.inl hr)
    refine .step (run_allocate o) (((h.trans hadd).gives_putOwn hle ⟨_, hadd.object hto⟩ d.name
      hheld).mono ?_)
    rintro _ _ ⟨rfl, hb⟩
    refine ⟨hb, .put hframe (fun _ _ ho => hadd.object ho) ?_⟩
    rw [Definition.Makes, hm]
    refine ⟨_, o, rfl, h.objects_next, ?_, rfl, rfl⟩
    have hne : (⟨w.objects.next⟩ : ObjectId) ≠ target d := by
      intro he
      have := object?_lt hto
      rw [← he] at this
      exact Nat.lt_irrefl _ this
    rw [object?_putting, if_neg hne]
    exact object?_adding w o

/-- **Definitions are made**, each on an object that was added. -/
theorem Builds.gives_defineEach (h : Builds cx w₀ w) (target : Definition → ObjectId)
    {ds : List Definition}
    (hds : ∀ d ∈ ds, w₀.objects.next ≤ (target d).index ∧ (∃ o, w.object? (target d) = some o) ∧
      ∀ v, d.member = .value v → v.asObject? = none) :
    Gives (ds.forM fun d => define cx (target d) d) w fun _ w' =>
      Builds cx w₀ w' ∧ Defined cx w₀.objects.next target ds w w' := by
  induction ds generalizing w with
  | nil => exact .pure ⟨h, .nil w⟩
  | cons d ds ih =>
    obtain ⟨⟨hle, ht, hd⟩, hds⟩ := List.forall_mem_cons.1 hds
    refine .bind (h.gives_define target hle ht hd) fun _ w₁ h₁ => ?_
    refine (ih h₁.1 fun d' hd' => ?_).mono fun _ _ h₂ => ⟨h₂.1, h₁.2.cons h₂.2⟩
    obtain ⟨hle', ⟨o, ho⟩, hv'⟩ := hds d' hd'
    obtain ⟨o', ho', -⟩ := h₁.2.object _ o ho
    exact ⟨hle', ⟨o', ho'⟩, hv'⟩

/-! ## Tables -/

/-- **The table of an object** after definitions: for each name in question, what the last definition
made, or what there was before. -/
def Table (cx : ContextId) (since : Nat) (names : String → Prop) (kind : ObjectKind)
    (prototype : Option ObjectId) (before : String → Option Property)
    (last : String → Option Definition) (w : World) (id : ObjectId) : Prop :=
  ∃ o, w.object? id = some o ∧ o.context = cx ∧ o.kind = kind ∧ o.prototype = prototype ∧
    ∀ name, names name → Holds cx since w (before name) (last name) (o.own? name)

/-- Some names of an object stand for what they stood for, and nothing else makes a difference. -/
def Untouched (names : String → Prop) (w w' : World) (id : ObjectId) : Prop :=
  ∀ o, w.object? id = some o → ∃ o', w'.object? id = some o' ∧ o'.context = o.context ∧
    o'.kind = o.kind ∧ o'.prototype = o.prototype ∧ ∀ name, names name → o'.own? name = o.own? name

theorem Untouched.stays {names : String → Prop}
    (h : ∀ id : ObjectId, since ≤ id.index → Untouched names w w' id) : Stays since w w' := by
  intro id o hle ho
  obtain ⟨o', ho', hc, hk, -⟩ := h id hle o ho
  exact ⟨o', ho', hc, hk⟩

namespace Table

variable {names : String → Prop} {kind : ObjectKind} {prototype : Option ObjectId}
  {before : String → Option Property} {last : String → Option Definition} {id : ObjectId}

/-- A table is left alone by changes to other names. -/
theorem untouched {names' : String → Prop}
    (h : Table cx since names kind prototype before last w id) (hr : Untouched names' w w' id)
    (hs : Stays since w w') (hn : ∀ name, names' name → names name) :
    Table cx since names' kind prototype before last w' id := by
  obtain ⟨o, ho, hc, hk, hp, hown⟩ := h
  obtain ⟨o', ho', hc', hk', hp', hown'⟩ := hr o ho
  refine ⟨o', ho', hc'.trans hc, hk'.trans hk, hp'.trans hp, fun name hname => ?_⟩
  rw [hown' name hname]
  exact (hown name (hn name hname)).mono hs

/-- More definitions are made. -/
theorem defined (h : Table cx since names kind prototype before last w id)
    {target : Definition → ObjectId} {ds : List Definition}
    (hd : Defined cx since target ds w w') :
    Table cx since names kind prototype before
      (fun name => (Definition.latest? (target · = id) ds name).or (last name)) w' id := by
  obtain ⟨o, ho, hc, hk, hp, hown⟩ := h
  obtain ⟨o', ho', hc', hk', hp', -, hown'⟩ := hd.object id o ho
  exact ⟨o', ho', hc'.trans hc, hk'.trans hk, hp'.trans hp, fun name hname =>
    (hown name hname).trans (hown' name) hd.stays⟩

end Table

/-! ## Classes -/

/-- **The tables of a class**: the function has the static definitions besides its prototype, and the
prototype the other ones besides its constructor. -/
structure Tables (cx : ContextId) (since : Nat) (names : String → Prop) (name : String)
    (code : Callback) (data : Nat) (ds : List Definition) (w : World) (cls proto : ObjectId) :
    Prop where
  ofClass : Table cx since names (.function name code data) none
    (fun n => if n = "prototype" then some (.data (.object proto) false false) else none)
    (Definition.latest? (·.isStatic) ds) w cls
  ofPrototype : Table cx since names .ordinary none
    (fun n => if n = "constructor" then some (.data (.object cls) true false) else none)
    (Definition.latest? (!·.isStatic) ds) w proto

section

variable {name : String} {code : Callback} {data : Nat} {ds : List Definition} {cls proto : ObjectId}
  {names : String → Prop}

/-- The definitions of a class are made on its two objects. -/
theorem Tables.defined (h : Tables cx since names name code data [] w cls proto) (hne : cls ≠ proto)
    (hd : Defined cx since (fun d => if d.isStatic then cls else proto) ds w w') :
    Tables cx since names name code data ds w' cls proto := by
  have hstatic : (fun d : Definition => decide ((if d.isStatic then cls else proto) = cls)) =
      (·.isStatic) := by
    funext d
    cases d.isStatic <;> simp [hne.symm]
  have hother : (fun d : Definition => decide ((if d.isStatic then cls else proto) = proto)) =
      (!·.isStatic) := by
    funext d
    cases d.isStatic <;> simp [hne]
  have hcls := h.ofClass.defined hd
  have hproto := h.ofPrototype.defined hd
  rw [hstatic] at hcls
  rw [hother] at hproto
  simp only [Definition.latest?, List.reverse_nil, List.find?_nil, Option.or_none] at hcls hproto
  exact ⟨hcls, hproto⟩

/-- **The definition of a class** comes to its end, and adds a class with its tables. -/
theorem gives_tables (w : World) (cx : ContextId) (name : String) (code : Callback) (data : Nat)
    {ds : List Definition} (hds : ∀ d ∈ ds, d.IsPlain) :
    Gives (defineClass cx name code data ds) w fun cls w' => Builds cx w w' ∧
      w.objects.next ≤ cls.index ∧ ∃ proto, w.objects.next ≤ proto.index ∧
        Tables cx w.objects.next (fun _ => True) name code data ds w' cls proto := by
  let c : Object := { context := cx, kind := .function name code data }
  let q : Object := { context := cx }
  let cls : ObjectId := ⟨w.objects.next⟩
  let proto : ObjectId := ⟨w.objects.next + 1⟩
  have hne : cls ≠ proto := fun h => Nat.ne_of_lt (Nat.lt_succ_self _) (congrArg ObjectId.index h)
  let w₀ : World := (w.adding c).adding q
  have hc : Builds cx w (w.adding c) := .adding w rfl rfl (by rintro items ⟨⟩)
  have hadd : Builds cx (w.adding c) w₀ := .adding _ rfl rfl (by rintro items ⟨⟩)
  have hb₀ : Builds cx w w₀ := hc.trans hadd
  have hcls₀ : w₀.object? cls = some c := hadd.object (object?_adding w c)
  have hproto₀ : w₀.object? proto = some q := object?_adding (w.adding c) q
  have hheld₀ : .object cls ∈ w₀.held.flatten ∧ .object proto ∈ w₀.held.flatten :=
    ⟨hadd.held (mem_holding.2 (.inl (.head _))), mem_holding.2 (.inl (.head _))⟩
  refine .step (run_allocate c) (.step (run_allocate q) ?_)
  refine .bind (hb₀.gives_putOwn (Nat.le_succ _) ⟨q, hproto₀⟩ "constructor"
    (List.cons_subset.2 ⟨hheld₀.1, List.nil_subset _⟩)) ?_
  rintro _ w₁ ⟨hw₁, hb₁⟩
  have hcls₁ : w₁.object? cls = some c := by
    rw [hw₁, object?_putting, if_neg hne, hcls₀]
  have hproto₁ : w₁.object? proto = some (q.put "constructor" (.data (.object cls) true false)) := by
    rw [hw₁, object?_putting, if_pos rfl, hproto₀]
    rfl
  have hheld₁ : .object proto ∈ w₁.held.flatten := hw₁ ▸ hheld₀.2
  refine .bind (hb₁.gives_putOwn (Nat.le_refl _) ⟨c, hcls₁⟩ "prototype"
    (List.cons_subset.2 ⟨hheld₁, List.nil_subset _⟩)) ?_
  rintro _ w₂ ⟨hw₂, hb₂⟩
  have hcls₂ : w₂.object? cls = some (c.put "prototype" (.data (.object proto) false false)) := by
    rw [hw₂, object?_putting, if_pos rfl, hcls₁]
    rfl
  have hproto₂ : w₂.object? proto = some (q.put "constructor" (.data (.object cls) true false)) := by
    rw [hw₂, object?_putting, if_neg (Ne.symm hne), hproto₁]
  have htables : Tables cx w.objects.next (fun _ => True) name code data [] w₂ cls proto :=
    ⟨⟨_, hcls₂, rfl, rfl, rfl, fun n _ => Object.own?_put c _ _ n⟩,
      ⟨_, hproto₂, rfl, rfl, rfl, fun n _ => Object.own?_put q _ _ n⟩⟩
  -- Each definition lands on one of the two objects, which are new.
  have htarget (d : Definition) (hd : d ∈ ds) :
      w.objects.next ≤ (if d.isStatic then cls else proto).index ∧
      (∃ o, w₂.object? (if d.isStatic then cls else proto) = some o) ∧
      ∀ v, d.member = .value v → v.asObject? = none := by
    refine ⟨?_, ?_, fun _ hm => (hds d hd).value hm⟩
    · split
      · exact Nat.le_refl _
      · exact Nat.le_succ _
    · split
      · exact ⟨_, hcls₂⟩
      · exact ⟨_, hproto₂⟩
  refine .bind (hb₂.gives_defineEach (fun d => if d.isStatic then cls else proto) htarget) ?_
  exact fun _ w₃ h₃ => .pure ⟨h₃.1, Nat.le_refl _, proto, Nat.le_succ _, htables.defined hne h₃.2⟩

/-- Looking up the prototype of a class that is defined finds a plain value or an object of the context. -/
theorem Tables.lookup_prototype (h : Tables cx since names name code data ds w cls proto)
    (hn : names "prototype") (hds : ∀ d ∈ ds, d.IsPlain) :
    ∃ v writable enumerable, w.lookup cls "prototype" = some (.data v writable enumerable, true) ∧
      w.Local cx v ∧
      (Definition.latest? (·.isStatic) ds "prototype" = none → v = .object proto) := by
  obtain ⟨o, ho, hc, hk, hp, hown⟩ := h.ofClass
  obtain ⟨q, hq, hqc, -⟩ := h.ofPrototype
  have hl {p} (hp : o.own? "prototype" = some p) : w.lookup cls "prototype" = some (p, true) := by
    rw [lookup, ho]
    simp only [hp]
  have hholds := hown "prototype" hn
  dsimp only at hholds
  rw [if_pos rfl] at hholds
  cases hlast : Definition.latest? (·.isStatic) ds "prototype" with
  | none =>
    rw [hlast] at hholds
    refine ⟨_, _, _, hl hholds, ?_, fun _ => rfl⟩
    rintro id ⟨⟩
    exact ⟨q, hq, hqc⟩
  | some d =>
    rw [hlast] at hholds
    obtain ⟨p, hp, hm⟩ := hholds
    obtain ⟨v, writable, enumerable, rfl, hv⟩ :=
      Makes.local_of_isPlain hm (hds d (Definition.latest?_mem hlast).1)
    exact ⟨v, writable, enumerable, hl hp, hv, by rintro ⟨⟩⟩

/-- Constructor and prototype of a class are tied to each other. -/
theorem Tables.isClass (h : Tables cx since names name code data ds w cls proto)
    (hn : names "prototype") (hds : ∀ d ∈ ds, d.IsPlain) : w.IsClass cx cls := by
  obtain ⟨o, ho, hc, hk, -⟩ := h.ofClass
  obtain ⟨v, writable, enumerable, hl, hv, -⟩ := h.lookup_prototype hn hds
  have hf : o.isFunction := by
    rw [Object.isFunction, Object.function?, hk]
    rfl
  refine ⟨⟨o, ho, hc, hf⟩, fun p own hp => .inr ?_⟩
  cases hl.symm.trans hp
  exact ⟨v, writable, enumerable, rfl, hv⟩

end

end World

/-! ## Generating a class -/

namespace Engine

variable {α β : Type} {w w' : World} {cx : ContextId}

/-- What a list of actions gives that leave the world as it is. -/
theorem mapM_ok {f : α → Engine β} {P : α → β → Prop} {l : List α}
    (hf : ∀ a ∈ l, ∀ w b w', (f a).run w = .ok b w' → w' = w ∧ P a b) {bs}
    (h : (l.mapM f).run w = .ok bs w') : w' = w ∧ List.Forall₂ P l bs := by
  induction l generalizing w bs with
  | nil =>
    cases h
    exact ⟨rfl, .nil⟩
  | cons a l ih =>
    rw [List.mapM_cons] at h
    obtain ⟨b, w₁, hb, h⟩ := bind_ok h
    obtain ⟨rest, w₂, hrest, h⟩ := bind_ok h
    cases h
    obtain ⟨rfl, hp⟩ := hf a (List.mem_cons_self ..) w b w₁ hb
    obtain ⟨rfl, hall⟩ := ih (fun a ha => hf a (List.mem_cons_of_mem _ ha)) hrest
    exact ⟨rfl, .cons hp hall⟩

/-- The definition of a constant: a static property, read-only, with the converted value. -/
def ConstantDefinition (cx : ContextId) (r : Registry) (e : String × Constant) (d : Definition) :
    Prop :=
  ∃ encoder v, r.encoder? e.2.toNative.typeId = some encoder ∧
    (∀ w, (encodePlain cx r.maxBufferLength encoder e.2.toNative).run w = .ok v w) ∧
    v.asObject? = none ∧ d = { name := e.1, member := .value v, isStatic := true, readOnly := true }

theorem ConstantDefinition.isPlain {r e d} (h : ConstantDefinition cx r e d) : d.IsPlain := by
  obtain ⟨-, v, -, -, hv, rfl⟩ := h
  exact hv

theorem isPlain_constants {r es ds} (h : List.Forall₂ (ConstantDefinition cx r) es ds) :
    ∀ d ∈ ds, d.IsPlain := by
  induction h with
  | nil => exact nofun
  | cons he _ ih => exact List.forall_mem_cons.2 ⟨he.isPlain, ih⟩

/-- A constant that converts is plain, and converts so in every world. -/
theorem encodePlain_ok {limit e} {c : Constant} {v}
    (h : (encodePlain cx limit e c.toNative).run w = .ok v w') : w' = w ∧ v.asObject? = none ∧
      ∀ w, (encodePlain cx limit e c.toNative).run w = .ok v w := by
  cases e with
  | refusal => cases c <;> cases h
  | _ =>
    cases c <;>
    · cases h
      exact ⟨rfl, rfl, fun _ => rfl⟩

/-- The definition of a constant has its name and its value. -/
theorem constantDefinition_ok {registry d name c def'}
    (h : (constantDefinition cx registry d name c).run w = .ok def' w') :
    w' = w ∧ ConstantDefinition cx registry (name, c) def' := by
  rw [constantDefinition] at h
  cases he : registry.encoder? c.toNative.typeId with
  | none =>
    simp only [he] at h
    cases h
  | some e =>
    simp only [he] at h
    obtain ⟨r, w₁, hr, h⟩ := bind_ok h
    rw [run_attempt] at hr
    cases hv : (encodePlain cx registry.maxBufferLength e c.toNative).run w with
    | error stop w₂ =>
      rw [hv] at hr
      cases hr
      cases stop <;> cases h
    | ok v w₂ =>
      rw [hv] at hr
      cases hr
      cases h
      obtain ⟨rfl, hplain, hrun⟩ := encodePlain_ok hv
      exact ⟨rfl, e, v, he, hrun, hplain, rfl⟩

/-- Methods are plain definitions. -/
theorem isPlain_methodDefinitions (key : ClassKey) (d : TypeDescriptor) :
    ∀ m ∈ methodDefinitions key d, m.IsPlain := by
  intro m hm
  obtain ⟨⟨method, index⟩, -, rfl⟩ := List.mem_map.1 hm
  dsimp only
  split
  · trivial
  · trivial

theorem isPlain_onDefinitions (key : ClassKey) (d : TypeDescriptor) :
    ∀ m ∈ onDefinitions key d, m.IsPlain := by
  intro m hm
  rw [onDefinitions] at hm
  split at hm
  · cases List.mem_singleton.1 hm
    trivial
  · cases hm

/-- What there is to define for a class is plain, if its constants are. -/
theorem isPlain_members (key : ClassKey) (d : TypeDescriptor) {constants : List Definition}
    (hc : ∀ m ∈ constants, m.IsPlain) :
    ∀ m ∈ methodDefinitions key d ++ onDefinitions key d ++ constants, m.IsPlain := by
  intro m hm
  rw [List.mem_append, List.mem_append] at hm
  obtain (hm | hm) | hm := hm
  · exact isPlain_methodDefinitions key d m hm
  · exact isPlain_onDefinitions key d m hm
  · exact hc m hm

/-- A class is defined with all its members. -/
theorem gives_members (w : World) (cx : ContextId) (key : ClassKey) (d : TypeDescriptor)
    {constants : List Definition} (hc : ∀ m ∈ constants, m.IsPlain) :
    Gives (defineClass cx d.name (.member key .construct) 0
      (methodDefinitions key d ++ onDefinitions key d ++ constants)) w fun cls w' =>
        World.Builds cx w w' ∧ w'.IsClass cx cls := by
  refine (World.gives_tables w cx _ _ 0 (isPlain_members key d hc)).mono fun cls w' h => ?_
  obtain ⟨hb, -, proto, -, ht⟩ := h
  exact ⟨hb, ht.isClass trivial (isPlain_members key d hc)⟩

/-- **A class that was generated** has the tables of its descriptor. -/
theorem generateClass_tables {r key cls} (h : (generateClass cx r key).run w = .ok cls w') :
    World.Builds cx w w' ∧ w.objects.next ≤ cls.index ∧ ∃ constants proto,
      List.Forall₂ (ConstantDefinition cx r) (w.plans.descriptor key).constants constants ∧
      w.objects.next ≤ proto.index ∧
      World.Tables cx w.objects.next (fun _ => True) (w.plans.descriptor key).name
        (.member key .construct) 0 (methodDefinitions key (w.plans.descriptor key) ++
          onDefinitions key (w.plans.descriptor key) ++ constants) w' cls proto := by
  rw [generateClass, run_get_bind] at h
  obtain ⟨constants, w₁, hm, h⟩ := bind_ok h
  obtain ⟨rfl, hconstants⟩ := mapM_ok (P := ConstantDefinition cx r)
    (fun _ _ _ _ _ h => constantDefinition_ok h) hm
  have hplain := isPlain_members key (w₁.plans.descriptor key) (isPlain_constants hconstants)
  obtain ⟨hb, hcls, proto, hproto, ht⟩ := (World.gives_tables w₁ cx _ _ 0 hplain).holds h
  exact ⟨hb, hcls, constants, proto, hconstants, hproto, ht⟩

/-- A class that was generated is one of the context, and the world has grown by it. -/
theorem generateClass_ok {r key cls} (h : (generateClass cx r key).run w = .ok cls w') :
    World.Builds cx w w' ∧ w'.IsClass cx cls := by
  obtain ⟨hb, -, constants, proto, hconstants, -, ht⟩ := generateClass_tables h
  exact ⟨hb, ht.isClass trivial (isPlain_members key _ (isPlain_constants hconstants))⟩

end Engine

end Isthmus
