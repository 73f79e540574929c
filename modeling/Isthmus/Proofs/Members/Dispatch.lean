import Isthmus.Proofs.Library.Responses
import Isthmus.Proofs.Lifetime.Edits
import Isthmus.Proofs.Members.Calls
import Isthmus.Proofs.Members.Lookup
import Isthmus.Proofs.Members.WellTyped
import Isthmus.Proofs.Values.Encoding

/-!
# Proofs/Members/Dispatch — generated classes call what their descriptors declare

A function of a generated class knows its method by an index, checks and converts its arguments by the
declared parameters, and native code finds what to do by the same index.

* `Engine.fits_arguments` — what passes the checks fits the declared parameters.
* `Engine.invoke_concludes` — on arguments that fit, native code of the library comes to an end, with a
  result of the declared type or with a complaint that is not about the type of an argument.
* `World.Calls.counts` — a calculator counts its calls.
* `World.dispatches` — so nothing goes wrong between a descriptor and the native code behind it.

What carries the types is that a registry is `Registry.Tagged`, as those that scripts ask for are
(`Registry.tagged_ofSpec`), and that an object that is bound to a class holds an instance of it
(`World.WellTyped`), as it does in every session (`Session.wellTyped`).
-/

namespace Isthmus

open World

/-! ## Arguments -/

namespace World

variable {w : World} {cx : ContextId} {r : Registry} {v : ForeignValue} {t : TypeId} {n : NativeValue}

/-- There is the matrix of an instance of that class. -/
theorem matrixOf_of_isOf {id : InstanceId} (h : w.IsOf .matrix id) : (Engine.matrixOf w id).isSome := by
  obtain ⟨i, hi, hc⟩ := Option.bind_eq_some_iff.1 h
  rw [Engine.matrixOf, hi]
  cases i with
  | «matrix» m => rfl
  | _ => cases hc

/-- What is given is built if what it is made of is. -/
theorem built_of_given {α : Type} {f : α → NativeValue} (hf : ∀ a, (f a).Built) {o : Option α}
    (h : given (o.map f) = .ok n) : n.Built := by
  cases o with
  | none => cases h
  | some a =>
    cases h
    exact hf a

/-- What a decoder gives is built. -/
theorem built_of_decode {d : Decoder} (h : w.decode cx d v = .ok n) : n.Built := by
  cases d with
  | bool => exact built_of_given .bool h
  | int => exact built_of_given .int h
  | double => exact built_of_given .double h
  | string => exact built_of_given .string h
  | buffer => exact built_of_given .buffer h
  | «instance» cls =>
    obtain ⟨handle, -, rfl⟩ := ok_of_map h
    exact .object (ClassKey.isBuiltin_typeId _) _
  | nil =>
    rw [decode] at h
    split at h
    · cases h
      exact .void
    · cases h

/-- The conversion that a type is registered with gives the value. -/
theorem decode_of_becomes (hr : r.Tagged) (h : w.Becomes cx r (v, t) n) (hv : t ≠ .variant)
    (hl : t ≠ .list) : ∃ d, d.tag = t ∧ w.decode cx d v = .ok n := by
  rw [Becomes, fromForeign, if_neg hv, if_neg hl] at h
  dsimp only at h
  split at h
  · cases h
  · next d hd =>
    have h := ok_of_converted h
    cases hp : w.probe cx d v with
    | error e =>
      rw [hp] at h
      cases h
    | ok b =>
      rw [hp] at h
      cases b with
      | false => cases h
      | true => exact ⟨d, hr t d hd, h⟩

/-- A list is what an array becomes. -/
theorem items_of_becomes (h : w.Becomes cx r (v, .list) n) : ∃ items, n = .list items := by
  rw [Becomes, fromForeign, if_neg (show TypeId.list ≠ .variant by decide), if_pos rfl] at h
  have h := ok_of_converted h
  cases hi : w.itemsOf v with
  | none =>
    rw [hi] at h
    cases h
  | some items =>
    rw [hi] at h
    obtain ⟨values, -, rfl⟩ := ok_of_map h
    exact ⟨values, rfl⟩

/-- **What an argument converts to fits its parameter.** -/
theorem fits_of_becomes (hr : r.Tagged) (hw : w.WellTyped) (h : w.Becomes cx r (v, t) n) :
    n.Fits (fun inst => (Engine.matrixOf w inst).isSome) t where
  content k hk := by
    subst hk
    by_cases hl : k.typeId = .list
    · rw [hl] at h
      obtain ⟨items, rfl⟩ := items_of_becomes h
      cases k with
      | items => exact ⟨items, rfl⟩
      | _ => cases hl
    · obtain ⟨d, hd, h⟩ := decode_of_becomes hr h (by cases k <;> decide) hl
      exact Content.exists_give (built_of_decode h) ((typeId_of_decode h).trans hd)
  matrix ht := by
    subst ht
    obtain ⟨d, hd, h⟩ := decode_of_becomes hr h (ClassKey.typeId_ne rfl) (ClassKey.typeId_ne rfl)
    cases d with
    | «instance» cls =>
      obtain rfl := ClassKey.typeId_injective hd
      obtain ⟨handle, hh, rfl⟩ := ok_of_map h
      exact ⟨handle.inst, by rw [Engine.nativeValue, cls_of_handleFor hh], matrixOf_of_isOf (hw.isOf hh)⟩
    | _ => exact absurd hd.symm (ClassKey.typeId_ne rfl)

/-- Arguments that became what was declared fit the declaration. -/
theorem fits_of_all (hr : r.Tagged) (hw : w.WellTyped) {l : List (ForeignValue × TypeId)}
    {natives : List NativeValue} (h : List.Forall₂ (w.Becomes cx r) l natives) :
    List.Forall₂ (NativeValue.Fits fun inst => (Engine.matrixOf w inst).isSome) (l.map (·.2)) natives := by
  induction h with
  | nil => exact .nil
  | cons hp _ ih => exact .cons (fits_of_becomes hr hw hp) ih

end World

/-! ## Arguments that were accepted -/

namespace Engine

open World

variable {w w' : World} {cx : ContextId} {r : Registry} {l : List (ForeignValue × TypeId)}

theorem look_ok {α : Type} {x : Except Refusal α} {a : α} (h : (look cx x).run w = .ok a w') :
    w' = w ∧ x = .ok a := by
  cases x with
  | ok b =>
    cases h
    exact ⟨rfl, rfl⟩
  | error e => cases e <;> cases h

/-- Checking arguments changes nothing. -/
theorem firstRefused_ok {index : Nat} {o} (h : (firstRefused cx r index l).run w = .ok o w') :
    w' = w := by
  induction l generalizing index w with
  | nil =>
    cases h
    rfl
  | cons p l ih =>
    obtain ⟨b, w₁, hcan, h⟩ := bind_ok h
    obtain ⟨rfl, -⟩ := look_ok (x := w.canFromForeign cx r p.1 p.2) hcan
    cases b with
    | false =>
      cases h
      rfl
    | true => exact ih h

/-- Arguments that convert become natives, one by one. -/
theorem convertArguments_ok {index : Nat} {natives : List NativeValue}
    (h : (convertArguments cx r index l).run w = .ok (.ok natives) w') :
    w' = w ∧ List.Forall₂ (w.Becomes cx r) l natives := by
  induction l generalizing index natives w with
  | nil =>
    cases h
    exact ⟨rfl, .nil⟩
  | cons p l ih =>
    obtain ⟨x, w₁, hfrom, h⟩ := bind_ok h
    obtain ⟨rfl, hx⟩ := look_ok (x := w.fromForeign cx r p.1 p.2) hfrom
    cases x with
    | error e => cases h
    | ok first =>
      obtain ⟨y, w₂, hrest, h⟩ := bind_ok h
      cases y with
      | error e => cases h
      | ok others =>
        cases h
        obtain ⟨rfl, hothers⟩ := ih hrest
        exact ⟨rfl, .cons hx hothers⟩

/-- Checking arguments leaves everything as it is, and what it gives are the arguments, each converted to
the type that is declared in its place. -/
theorem arguments_ok {id i} (hb : w.bridge? cx = some (id, i)) {m : MethodDescriptor}
    {args : List ForeignValue} {natives : List NativeValue}
    (h : (arguments cx m args).run w = .ok natives w') :
    w' = w ∧ args.length = m.arity ∧
      List.Forall₂ (w.Becomes cx i.registry) (args.zip m.parameters) natives := by
  rw [arguments] at h
  by_cases hc : args.length ≠ m.arity
  · rw [if_pos hc] at h
    cases h
  rw [if_neg hc] at h
  change (registry cx >>= _).run w = _ at h
  rw [run_bind_of_ok (run_registry hb)] at h
  obtain ⟨o, w₁, hfirst, h⟩ := bind_ok h
  obtain rfl := firstRefused_ok hfirst
  cases o with
  | some refused => cases h
  | none =>
    dsimp only at h
    obtain ⟨x, w₂, hconvert, h⟩ := bind_ok h
    cases x with
    | error refused => cases h
    | ok natives =>
      cases h
      obtain ⟨rfl, hbecomes⟩ := convertArguments_ok hconvert
      exact ⟨rfl, not_not.1 hc, hbecomes⟩

/-- **What passes the checks of a call fits**, one argument for each parameter. -/
theorem fits_arguments {id i} (hb : w.bridge? cx = some (id, i)) (hr : i.registry.Tagged)
    (hw : w.WellTyped) {m : MethodDescriptor} {args : List ForeignValue}
    {natives : List NativeValue} (h : (arguments cx m args).run w = .ok natives w') :
    w' = w ∧ List.Forall₂ (NativeValue.Fits fun inst => (matrixOf w inst).isSome) m.parameters natives := by
  obtain ⟨rfl, hc, hbecomes⟩ := arguments_ok hb h
  have hfits := fits_of_all hr hw hbecomes
  rw [List.map_snd_zip (Nat.le_of_eq hc.symm)] at hfits
  exact ⟨rfl, hfits⟩

end Engine

/-! ## How native code ends -/

/-- **How native code of the library ends** on arguments that fit: with a result of a kind, or with a
complaint. -/
inductive Concludes {α : Type} (args : List NativeValue) (P : α → Prop) : Except NativeError α → Prop where
  | ok {a : α} (h : P a) : Concludes args P (.ok a)
  | error {e : NativeError} (h : Complaint ClassKey.typeName args e) : Concludes args P (.error e)

/-- No argument is missing, so native code does not break off. -/
theorem Responds.settleFault {α : Type} {args : List NativeValue} {P : α → Prop} {x : Except Fault α}
    (h : Responds ClassKey.typeName args P x) :
    ∃ y, Engine.settleFault x = pure y ∧ Concludes args P y := by
  cases h with
  | ok h => exact ⟨_, rfl, .ok h⟩
  | error h => exact ⟨_, rfl, .error h⟩

namespace World

variable {w w' w'' : World} {id : InstanceId} {R : Instance → Instance → Prop}

/-- The instance is gone, or is what the one before turned into. -/
def Turns (w : World) (R : Instance → Instance → Prop) (id : InstanceId) (w' : World) : Prop :=
  ∀ i', w'.instance? id = some i' → ∃ i, w.instance? id = some i ∧ R i i'

/-- It stays an instance of its class. -/
def SameClass (i i' : Instance) : Prop :=
  i'.class? = i.class?

/-- A turn may let things go. -/
theorem Turns.of_thins {i : Instance} (hi : w.instance? id = some i) (hr : R i i) (h : Thins w w') :
    w.Turns R id w' := by
  intro i' hi'
  cases hi.symm.trans (h.instances _ _ hi')
  exact ⟨i, hi, hr⟩

/-- A turn may write to its instance. -/
theorem Turns.of_update {i i' : Instance} (hi : w.instance? id = some i)
    (h : Thins { w with instances := w.instances.modify id.index fun _ => i' } w') (hr : R i i') :
    w.Turns R id w' := by
  intro j hj
  have hj := h.instances _ _ hj
  rw [Store.get?_modify, if_pos rfl] at hj
  obtain ⟨-, -, rfl⟩ := Option.map_eq_some_iff.1 hj
  exact ⟨i, hi, hr⟩

end World

namespace Engine

open World

variable {w : World}

/-- A firing leaves handles, objects and instances as they are, but for what goes. -/
theorem run_fire (id : ChannelsId) (event : Nat) (args : List NativeValue) (w : World) :
    ∃ w', (operate (·.fire id event args)).run w = .ok () w' ∧ Thins w w' := by
  have hfire : Thins w (w.fire id event args).1 := .of_eq (w.fire_holdings id event args)
  exact ⟨_, rfl, trans_of Thins hfire (.release _ _)⟩

theorem run_updateInstance (id : InstanceId) (before after : Instance) (w : World) :
    ∃ w', (updateInstance id before after).run w = .ok () w' ∧
      Thins { w with instances := w.instances.modify id.index fun _ => after } w' :=
  ⟨_, rfl, .release _ _⟩

/-- Announcing an event comes to an end, and nothing but letting go happens to instances. -/
theorem run_emit (source : SourceId) (event : Nat) (args : List NativeValue) (w : World) :
    ∃ w', (emit source event args).run w = .ok () w' ∧ Thins w w' := by
  rw [emit, run_get_bind]
  cases w.source? source with
  | none => exact ⟨w, rfl, refl_of Thins w⟩
  | some s =>
    dsimp only
    induction s.targets generalizing w with
    | nil => exact ⟨w, rfl, refl_of Thins w⟩
    | cons id rest ih =>
      obtain ⟨w₁, hrun, h⟩ := run_fire id event args w
      obtain ⟨w₂, hrest, h'⟩ := ih w₁
      exact ⟨w₂, (run_bind_of_ok hrun).trans hrest, trans_of Thins h h'⟩

/-- What an image operation asks for is done, and is of the declared type. -/
theorem run_fulfil {t : TypeId} {request : Imaging.Request} (h : Imaging.Request.Suits t request)
    {id : InstanceId} {i : Instance} (hi : w.instance? id = some i) :
    ∃ v w', (fulfil request).run w = .ok v w' ∧ v.Suits t ∧ w'.instance? id = some i := by
  cases h with
  | create x =>
    refine ⟨_, _, rfl, .inr ?_, ?_⟩
    · exact (congrArg _ (NativeValue.convert_self (by rfl))).trans rfl
    · exact (Store.get?_insert ..).trans ((if_neg (Nat.ne_of_lt (Store.lt_next_of_get? hi))).trans hi)
  | schedule work => exact ⟨_, _, rfl, .inr rfl, hi⟩

variable {cls : ClassKey} {id : InstanceId} {index : Nat} {m : MethodDescriptor} {args : List NativeValue}

/-- **Native code of the library comes to an end** on arguments that fit, with a result of the declared
type or with a complaint, and its instance stays one of its class. -/
theorem invoke_concludes (hcls : cls ∈ ClassKey.library) (hid : w.IsOf cls id)
    (hm : (w.plans.descriptor cls).methods[index]? = some m) (hs : m.isStatic = false)
    (hk : m.isEvent = false)
    (h : List.Forall₂ (NativeValue.Fits fun inst => (matrixOf w inst).isSome) m.parameters args) :
    ∃ outcome w', (invoke id index args).run w = .ok outcome w' ∧
      Concludes args (NativeValue.Suits m.returns) outcome ∧ w.Turns SameClass id w' := by
  obtain ⟨i, hi, hc⟩ := Option.bind_eq_some_iff.1 hid
  rw [invoke, run_get_bind, hi]
  cases i with
  | calculator c =>
    cases hc
    obtain ⟨y, hy, hends⟩ := (Calculator.responds c hm hs h).settleFault
    obtain ⟨w', hrun, hthins⟩ := run_updateInstance id (.calculator c)
      (.calculator (c.invoke ClassKey.typeName index args).2) w
    refine ⟨y, w', ?_, hends, .of_update hi hthins rfl⟩
    dsimp only
    rw [run_bind_of_ok hrun, hy]
    rfl
  | «matrix» x =>
    cases hc
    obtain ⟨y, hy, hends⟩ := (Matrix.responds x hm h).settleFault
    refine ⟨y, w, ?_, hends, .of_thins hi rfl (refl_of Thins w)⟩
    dsimp only
    rw [hy]
    rfl
  | imaging =>
    cases hc
    have hresponds : Responds ClassKey.typeName args (Imaging.Request.Suits m.returns)
        (Imaging.request ClassKey.typeName (matrixOf w) 0 index args) := Imaging.responds hm h
    obtain ⟨y, hy, hends⟩ := hresponds.settleFault
    dsimp only
    rw [hy, pure_bind]
    cases hends with
    | error he => exact ⟨_, w, rfl, .error he, .of_thins hi rfl (refl_of Thins w)⟩
    | ok hsuits =>
      obtain ⟨v, w', hrun, hv, hi'⟩ := run_fulfil hsuits hi
      refine ⟨.ok v, w', ?_, .ok hv, fun i' h' => ⟨_, hi, ?_⟩⟩
      · dsimp only
        rw [run_bind_of_ok hrun]
        rfl
      · cases hi'.symm.trans h'
        exact rfl
  | ticker value source =>
    cases hc
    obtain ⟨hvoid, hresponds⟩ := Ticker.responds hm hk h
    obtain ⟨y, hy, hends⟩ := hresponds.settleFault
    dsimp only
    rw [hy, pure_bind]
    cases hends with
    | error he => exact ⟨_, w, rfl, .error he, .of_thins hi rfl (refl_of Thins w)⟩
    | @ok request _ =>
      cases request with
      | bump =>
        obtain ⟨w₁, hrun, hthins⟩ := run_updateInstance id (.ticker (value + 1) source)
          (.ticker (value + 1) source) w
        obtain ⟨w₂, hemit, hthins'⟩ := run_emit source Ticker.changed [.int (value + 1)] w₁
        refine ⟨.ok .void, w₂, ?_, .ok (.inl hvoid),
          .of_update hi (trans_of Thins hthins hthins') rfl⟩
        dsimp only
        rw [run_bind_of_ok hrun]
        exact run_bind_of_ok hemit
      | start count =>
        exact ⟨_, _, rfl, .ok (.inl hvoid), .of_thins hi rfl (.of_eq ⟨rfl, rfl⟩)⟩
  | puppet | plain =>
    cases hc
    simp [ClassKey.library] at hcls
  | stranger => cases hc

/-- Only the calculator has static methods. -/
theorem isStatic_of_library (hcls : cls ∈ ClassKey.library) (hc : cls ≠ .calculator) :
    ∀ m ∈ (w.plans.descriptor cls).methods, m.isStatic = false := by
  cases cls with
  | calculator => exact absurd rfl hc
  | «matrix» => exact (by decide : ∀ m ∈ Matrix.descriptor.methods, m.isStatic = false)
  | imaging =>
    exact (by decide : ∀ m ∈ (Imaging.descriptor ClassKey.matrix.typeId).methods, m.isStatic = false)
  | ticker => exact (by decide : ∀ m ∈ Ticker.descriptor.methods, m.isStatic = false)
  | puppet | plain => simp [ClassKey.library] at hcls

/-- A static method of the library needs no instance; it ends in the same way, and changes nothing. -/
theorem invokeStatic_concludes (hcls : cls ∈ ClassKey.library)
    (hm : (w.plans.descriptor cls).methods[index]? = some m) (hs : m.isStatic = true)
    (h : List.Forall₂ (NativeValue.Fits fun inst => (matrixOf w inst).isSome) m.parameters args) :
    ∃ outcome, (invokeStatic cls index args).run w = .ok outcome w ∧
      Concludes args (NativeValue.Suits m.returns) outcome := by
  by_cases hc : cls = .calculator
  · subst hc
    obtain ⟨y, hy, hends⟩ := (Calculator.responds_static hm hs h).settleFault
    refine ⟨y, ?_, hends⟩
    rw [invokeStatic, hy]
    rfl
  · have hnot := isStatic_of_library (w := w) hcls hc m (List.mem_of_getElem? hm)
    rw [hs] at hnot
    cases hnot

/-- Every declared property has a value of its declared type. -/
theorem readMember_suits (hcls : cls ∈ ClassKey.library) (hid : w.IsOf cls id) {p : PropertyDescriptor}
    (hp : (w.plans.descriptor cls).properties[index]? = some p) :
    ∃ v, (readMember id index).run w = .ok (some v) w ∧ (v.convert p.type).isSome := by
  obtain ⟨i, hi, hc⟩ := Option.bind_eq_some_iff.1 hid
  rw [readMember, run_get_bind, hi]
  cases i with
  | calculator c =>
    cases hc
    obtain ⟨v, hv, hsome⟩ := c.suits_read hp
    exact ⟨v, by dsimp only; rw [hv]; rfl, hsome⟩
  | «matrix» x =>
    cases hc
    obtain ⟨v, hv, hsome⟩ := x.suits_read hp
    exact ⟨v, by dsimp only; rw [hv]; rfl, hsome⟩
  | imaging =>
    cases hc
    cases hp
  | ticker value source =>
    cases hc
    match index, hp with
    | 0, hp =>
      obtain rfl := Option.some.inj hp
      exact ⟨.int value, rfl, rfl⟩
    | n + 1, hp => cases hp
  | puppet | plain =>
    cases hc
    simp [ClassKey.library] at hcls
  | stranger => cases hc

end Engine

/-! ## Sequences of calls -/

/-- How often a calculator was called. -/
def Instance.calls? : Instance → Option Int32
  | .calculator c => some c.calls
  | _ => none

theorem Engine.after_settleFault {α : Type} (x : Except Fault α) (w : World) :
    (settleFault x).after w = w := by
  obtain (_ | _) | _ := x
  · rfl
  · rfl
  · rfl

/-- Calling a method counts, whatever it is called with and however that ends. -/
theorem Engine.turns_invoke (w : World) (id : InstanceId) (index : Nat) (args : List NativeValue) :
    w.Turns (fun i i' => ∀ k, i.calls? = some k → i'.calls? = some (k + 1)) id
      ((invoke id index args).after w) := by
  intro i' hi'
  cases hi : w.instance? id with
  | none =>
    have hrun : (invoke id index args).run w = .ok (.error (.unknownMember index)) w := by
      rw [invoke, run_get_bind, hi]
      rfl
    rw [after_of_ok hrun, hi] at hi'
    cases hi'
  | some i =>
    refine ⟨i, rfl, fun k hk => ?_⟩
    cases i with
    | calculator c =>
      cases hk
      obtain ⟨w₁, hrun, hthins⟩ := run_updateInstance id (.calculator c)
        (.calculator (c.invoke ClassKey.typeName index args).2) w
      have hafter : (invoke id index args).after w =
          (settleFault (c.invoke ClassKey.typeName index args).1).after w₁ := by
        rw [after, invoke, run_get_bind, hi]
        dsimp only
        rw [run_bind_of_ok hrun]
        rfl
      rw [hafter, after_settleFault] at hi'
      have hturns : w.Turns (fun _ j => j.calls? = some (c.calls + 1)) id w₁ :=
        .of_update hi hthins (congrArg some (c.calls_invoke index args))
      obtain ⟨-, -, hcalls⟩ := hturns i' hi'
      exact hcalls
    | _ => cases hk

/-- **A sequence of things that happen**, of which so many are calls of one instance.  Whatever else
happens, only calls count. -/
inductive World.Calls (w : World) (id : InstanceId) : Nat → World → Prop where
  | refl : Calls w id 0 w
  | call {n : Nat} {w' : World} (h : Calls w id n w') (index : Nat) (args : List NativeValue) :
      Calls w id (n + 1) ((Engine.invoke id index args).after w')
  | aside {n : Nat} {w' w'' : World} (h : Calls w id n w')
      (hn : w'.Turns (fun i i' => i'.calls? = i.calls?) id w'') : Calls w id n w''

/-- **Counting does not overflow** in fewer than `2 ^ 31` calls: a calculator knows how often it was
called. -/
theorem World.Calls.counts {w w' : World} {id : InstanceId} {n : Nat} (h : w.Calls id n w') {c : Calculator}
    (hc : w.instance? id = some (.calculator c)) (h0 : 0 ≤ c.calls.toInt)
    (hn : c.calls.toInt + n < 2 ^ 31) {i' : Instance} (hi' : w'.instance? id = some i') :
    ∃ k, i'.calls? = some k ∧ k.toInt = c.calls.toInt + n := by
  induction h generalizing i' with
  | refl =>
    cases hc.symm.trans hi'
    exact ⟨c.calls, rfl, (Int.add_zero _).symm⟩
  | call h index args ih =>
    obtain ⟨i, hi, hcount⟩ := Engine.turns_invoke _ id index args i' hi'
    obtain ⟨k, hk, hint⟩ := ih (by omega) hi
    refine ⟨k + 1, hcount k hk, ?_⟩
    have hone : (1 : Int32).toInt = 1 := rfl
    rw [Int32.toInt_add, hone, hint, Int.bmod_eq_of_le (by omega) (by omega)]
    omega
  | aside h hturns ih =>
    obtain ⟨i, hi, hsame⟩ := hturns i' hi'
    rw [hsame]
    exact ih hn hi

/-! ## Registries -/

namespace Registry

variable {plans : Plans} {r r' : Registry}

/-- Each entry of the conversions to the native side is for the tag of what it gives. -/
def Labelled (r : Registry) : Prop :=
  ∀ e ∈ r.decoders, e.2.tag = e.1

namespace Labelled

theorem base : Registry.base.Labelled := by
  rw [Labelled]
  decide

/-- A decoder under its own type is labelled. -/
theorem withDecoder (h : r.Labelled) {t : TypeId} {d : Decoder} (hd : d.tag = t) :
    (r.withDecoder t d).Labelled := by
  intro e he
  obtain rfl | he := List.mem_cons.1 he
  · exact hd
  · exact h e (List.mem_filter.1 he).1

theorem withClass (h : r.Labelled) (plans : Plans) (key : ClassKey) :
    (Registry.withClass plans r key).Labelled :=
  withDecoder (r := r.withEncoder key.typeId (.instance key)) h rfl

/-- Settings keep the labels. -/
theorem withSettings {lookup : String → Option TypeId} {s : Config.ConversionSettings}
    (h : r.Labelled) (hr : r.withSettings lookup s = .ok r') : r'.Labelled := by
  obtain ⟨dynamic, -, rfl⟩ := ok_of_map hr
  exact h

/-- So does a specification. -/
theorem withSpec (h : r.Labelled) (spec : Script.RegistrySpec) : (withSpec plans spec r).Labelled := by
  have hvoid {r : Registry} (h : r.Labelled) :
      (if spec.voidAsNil then (r.withEncoder .void .nil).withDecoder .void .nil else r).Labelled := by
    split
    · exact withDecoder (r := r.withEncoder .void .nil) h rfl
    · exact h
  have hencoder {r : Registry} {c : Prop} [Decidable c] (h : r.Labelled) (t : TypeId) (e : Encoder) :
      (if c then r.withEncoder t e else r).Labelled := by
    split
    · exact h
    · exact h
  rw [Registry.withSpec]
  refine hencoder (hencoder (hvoid (foldl_withClass (fun _ key h => h.withClass plans key) ?_ _)) _ _) _ _
  cases spec.dynamic <;> cases spec.maxBufferLength <;> exact h

end Labelled

/-- **The registries that scripts ask for are tagged.** -/
theorem tagged_ofSpec {spec : Script.RegistrySpec} (h : ofSpec plans spec = .ok r) : r.Tagged := by
  obtain ⟨r₀, hr₀, rfl⟩ := ok_of_map h
  have hr₀ : r₀.Labelled := by
    obtain rfl | ⟨_, _, hr⟩ := ofConfig_cases hr₀
    · exact .base
    · exact Labelled.base.withSettings hr
  exact tagged_of_forall (hr₀.withSpec spec)

/-- **Registries that are made from settings are tagged**. -/
theorem tagged_ofSettings {lookup : String → Option TypeId} {s : Config.ConversionSettings}
    (h : ofSettings lookup plans s = .ok r) : r.Tagged := by
  obtain ⟨r', hr, rfl⟩ := ok_of_map h
  exact tagged_of_forall (foldl_withClass (fun _ key h => h.withClass plans key) (Labelled.base.withSettings hr) _)

end Registry

/-! ## The law -/

/-- **What comes of calling a function of a generated class.** -/
inductive World.Dispatched (w : World) (run : Runner) (cx : ContextId) (cls : ClassKey)
    (m : MethodDescriptor) (info : CallInfo) :
    MemberRole → EStateM.Result Stop World ForeignValue → Prop where
  /-- The arguments are refused, and native code does not run. -/
  | refused {role stop w'} (h : (Engine.arguments cx m info.args).run w = .error stop w') :
      Dispatched w run cx cls m info role (.error stop w')
  /-- Native code of the instance that the receiver holds comes to its end, and what that is goes back. -/
  | method {h : Handle} {natives outcome w'} (hh : w.handleFor cx cls info.receiver = .ok h)
      (hargs : (Engine.arguments cx m info.args).run w = .ok natives w)
      (hrun : (Engine.invoke h.inst info.data natives).run w = .ok outcome w')
      (hends : Concludes natives (NativeValue.Suits m.returns) outcome)
      (hturns : w.Turns World.SameClass h.inst w') :
      Dispatched w run cx cls m info .invoke ((Engine.finish run cx m outcome).run w')
  /-- Native code of the class does. -/
  | static {natives outcome} (hargs : (Engine.arguments cx m info.args).run w = .ok natives w)
      (hrun : (Engine.invokeStatic cls info.data natives).run w = .ok outcome w)
      (hends : Concludes natives (NativeValue.Suits m.returns) outcome) :
      Dispatched w run cx cls m info .invokeStatic ((Engine.finish run cx m outcome).run w)

/-- Each definition of a method comes from the descriptor. -/
theorem Engine.exists_method {cls : ClassKey} {d : TypeDescriptor} {e : Definition}
    (h : e ∈ methodDefinitions cls d) : ∃ m index, d.methods[index]? = some m ∧ m.isEvent = false ∧
      e.member = .method (.member cls (if m.isStatic then .invokeStatic else .invoke)) index := by
  rw [methodDefinitions_eq] at h
  obtain ⟨⟨m, index⟩, hmem, rfl⟩ := List.mem_map.1 h
  obtain ⟨hm, hk⟩ := List.mem_filter.1 hmem
  refine ⟨m, index, List.mk_mem_zipIdx_iff_getElem?.1 hm, by simpa using hk, ?_⟩
  rw [methodDefinition]
  split
  · rfl
  · rfl

/-- A call comes to what is declared. -/
theorem World.dispatched {w : World} {cx : ContextId} {id i} (hb : w.bridge? cx = some (id, i))
    (hr : i.registry.Tagged) (hw : w.WellTyped) {cls : ClassKey} (hcls : cls ∈ ClassKey.library)
    {info : CallInfo} {m : MethodDescriptor}
    (hm : (w.plans.descriptor cls).methods[info.data]? = some m) (hk : m.isEvent = false) {native}
    (hn : w.Behind cx cls info (if m.isStatic then .invokeStatic else .invoke) native) (run : Runner) :
    w.Dispatched run cx cls m info (if m.isStatic then .invokeStatic else .invoke)
      ((Engine.runMember run cx cls (if m.isStatic then .invokeStatic else .invoke) info).run w) := by
  rw [Engine.run_member hm hn run]
  cases ha : (Engine.arguments cx m info.args).run w with
  | error stop w' =>
    rw [Engine.run_bind_of_error ha]
    exact .refused ha
  | ok natives w' =>
    obtain ⟨rfl, hfits⟩ := Engine.fits_arguments hb hr hw ha
    rw [Engine.run_bind_of_ok ha]
    cases hs : m.isStatic with
    | false =>
      rw [hs] at hn
      cases hn with
      | method hh =>
        obtain ⟨outcome, w'', hrun, hends, hturns⟩ :=
          Engine.invoke_concludes hcls (hw.isOf hh) hm hs hk hfits
        rw [Engine.run_bind_of_ok hrun]
        exact .method hh ha hrun hends hturns
    | true =>
      rw [hs] at hn
      cases hn with
      | static =>
        obtain ⟨outcome, hrun, hends⟩ := Engine.invokeStatic_concludes hcls hm hs hfits
        rw [Engine.run_bind_of_ok hrun]
        exact .static ha hrun hends

/-- **Descriptors and native code do not drift apart.**  For a class of the library, on a context with a
bridge whose registry is tagged, the function of each declared method either refuses its arguments or runs
native code to an end that fits the declaration, with no argument missing, no member unknown and no
complaint about the type of an argument; and each declared property has a value of its type.  A calculator
counts up to `2 ^ 31` calls without overflow, whatever happens in between.  And a call leaves handles with
instances of their classes, so the next one finds them so. -/
theorem World.dispatches {w : World} {cx : ContextId} {id i} (hb : w.bridge? cx = some (id, i))
    (hr : i.registry.Tagged) (hw : w.WellTyped) {cls : ClassKey} (hcls : cls ∈ ClassKey.library) :
    (∀ e ∈ Engine.methodDefinitions cls (w.plans.descriptor cls), ∃ m role index,
      (w.plans.descriptor cls).methods[index]? = some m ∧ e.member = .method (.member cls role) index ∧
      ∀ info native, info.data = index → w.Behind cx cls info role native → ∀ run,
        w.Dispatched run cx cls m info role ((Engine.runMember run cx cls role info).run w)) ∧
    (∀ v h, w.handleFor cx cls v = .ok h →
      ∀ index p, (w.plans.descriptor cls).properties[index]? = some p →
        ∃ n, (Engine.readMember h.inst index).run w = .ok (some n) w ∧ (n.convert p.type).isSome) ∧
    (∀ inst c (n : Nat) w' i', w.instance? inst = some (.calculator c) → 0 ≤ c.calls.toInt →
      c.calls.toInt + n < 2 ^ 31 → w.Calls inst n w' → w'.instance? inst = some i' →
        ∃ k, i'.calls? = some k ∧ k.toInt = c.calls.toInt + n) ∧
    ∀ depth role info,
      ((Engine.runMember (Session.runner depth) cx cls role info).after w).WellTyped := by
  refine ⟨fun e he => ?_, fun v h hh index p hp => Engine.readMember_suits hcls (hw.isOf hh) hp,
    fun inst c n w' i' hc h0 hn hcalls => hcalls.counts hc h0 hn, fun depth role info => ?_⟩
  · obtain ⟨m, index, hm, hk, hmember⟩ := Engine.exists_method he
    refine ⟨m, _, index, hm, hmember, fun info native hindex hn run => ?_⟩
    subst hindex
    exact w.dispatched hb hr hw hcls hm hk hn run
  · have hrun : Conserves Sustains (Engine.runMember (Session.runner depth) cx cls role info) :=
      .runMember (runs depth).answers
    exact hrun.wellTyped hw

namespace Desk

/-- A registry with the classes of the library. -/
def registry : Registry :=
  ClassKey.library.foldl (Registry.withClass {}) .base

/-- A context with that registry, and an object that holds a calculator. -/
def world : World :=
  let w := (({} : World).openContext ⟨1⟩).install ⟨0⟩ registry
  { w with
    objects := w.objects.insert { context := ⟨0⟩, attachment := some (.handle ⟨0⟩) }
    handles := w.handles.insert
      { cls := .calculator, inst := ⟨0⟩, ownership := .exclusive, state := .bound }
    instances := w.instances.insert (.calculator {}) }

/-- Calling `concat` on the calculator. -/
def call : CallInfo where
  receiver := .object ⟨0⟩
  args := [.string "a", .string "b"]
  data := 3

/-- The method. -/
def method : MethodDescriptor :=
  ⟨"concat", [.string, .string], .string, false, .method⟩

theorem wellTyped : world.WellTyped := by
  intro id x hx
  rw [World.handle?, world, Store.get?_insert] at hx
  split at hx
  · cases hx
    rfl
  · cases hx

end Desk

/-- The method that joins texts gets two texts, and what its native code ends with is what is declared. -/
theorem dispatches_concat :
    Desk.world.Dispatched (Session.runner 1) ⟨0⟩ .calculator Desk.method Desk.call .invoke
      ((Engine.runMember (Session.runner 1) ⟨0⟩ .calculator .invoke Desk.call).run Desk.world) ∧
    (Engine.arguments ⟨0⟩ Desk.method Desk.call.args).run Desk.world =
      .ok [.string "a", .string "b"] Desk.world := by
  have hb : Desk.world.bridge? ⟨0⟩ = some (⟨0⟩, { registry := Desk.registry }) := rfl
  have hr : Desk.registry.Tagged :=
    Registry.tagged_of_forall (Registry.foldl_withClass (fun _ key h => h.withClass {} key)
      Registry.Labelled.base _)
  obtain ⟨hcalls, -⟩ :=
    World.dispatches hb hr Desk.wellTyped (show ClassKey.calculator ∈ ClassKey.library by decide)
  have hmem : Engine.methodDefinition .calculator (Desk.method, 3) ∈
      Engine.methodDefinitions .calculator Calculator.descriptor :=
    Engine.Definition.mem_methodDefinitions rfl rfl
  obtain ⟨m, role, index, hm, hmember, h⟩ := hcalls _ hmem
  cases hmember
  cases hm
  exact ⟨h Desk.call _ rfl (.method rfl) _, rfl⟩

end Isthmus
