import Isthmus.Proofs.Run.Growth
import Isthmus.Proofs.Run.Natives
import Isthmus.Proofs.Values.Probe

/-!
# Proofs/Members/Calls — calling native methods is all or nothing

A call counts its arguments, probes them all, converts them all, and only then runs native code.

* `World.Judged` — what the arguments come to: the native arguments, or the first thing wrong with them.
* `World.Returned` — what comes of the end of native code.
* `Reachable.invokes` — a call runs its native method once with the native arguments, or throws and leaves
  everything as it was; what native code ends with is what the foreign side gets.

A registry may hold a conversion whose probe lets more through than converts (`Decoder.nil` is one), so
passing all probes is not enough.  It is for a registry that is `Registry.Exact`.
-/

namespace Isthmus

/-! ## Errors -/

/-- The foreign error that stands for a mistake. -/
def BridgeError.object (cx : ContextId) (e : BridgeError) : Object where
  context := cx
  kind := .error
  properties := [("name", .data (.string e.errorName) true false),
    ("message", .data (.string e.message) true false)]

/-- The end of an action that throws the error of a mistake and has done nothing else. -/
def World.throws {α : Type} (w : World) (cx : ContextId) (e : BridgeError) :
    EStateM.Result Stop World α :=
  .error (.thrown (.object ⟨w.objects.next⟩)) (w.adding (e.object cx))

/-- Nothing is different but for new objects, and those that were there are as they were. -/
structure World.Spares (w w' : World) : Prop where
  rest : { w' with objects := w.objects, held := w.held } = w
  object : ∀ id o, w.object? id = some o → w'.object? id = some o

theorem World.spares_adding (w : World) (o : Object) : w.Spares (w.adding o) where
  rest := rfl
  object id o' ho' := by
    rw [object?, adding, holding, Store.get?_insert, if_neg (Nat.ne_of_lt (object?_lt ho'))]
    exact ho'

/-! ## The first of a list -/

/-- The first item of a list without a property, and its place. -/
structure IsFirst {α : Type} (P : α → Prop) (l : List α) (place : Nat) (a : α) : Prop where
  at_place : l[place]? = some a
  lacks : ¬ P a
  before : ∀ j b, j < place → l[j]? = some b → P b

namespace IsFirst

variable {α : Type} {P : α → Prop} {l : List α} {a b : α} {place : Nat}

/-- The first element may be the first that fails. -/
theorem head (h : ¬ P a) : IsFirst P (a :: l) 0 a where
  at_place := rfl
  lacks := h
  before _ _ hj := absurd hj (Nat.not_lt_zero _)

/-- One that passes is passed over. -/
theorem tail (ha : P a) (h : IsFirst P l place b) : IsFirst P (a :: l) (place + 1) b where
  at_place := h.at_place
  lacks := h.lacks
  before j c hj hc := by
    cases j with
    | zero => exact Option.some.inj hc ▸ ha
    | succ j => exact h.before j c (Nat.lt_of_succ_lt_succ hj) hc

/-- The first that fails is in the list. -/
theorem mem (h : IsFirst P l place a) : a ∈ l :=
  List.mem_of_getElem? h.at_place

end IsFirst

/-! ## Tags -/

/-- The tag of the values that a conversion gives. -/
def Decoder.tag : Decoder → TypeId
  | .bool => .bool
  | .int => .int
  | .double => .double
  | .string => .string
  | .buffer => .buffer
  | .instance cls => cls.typeId
  | .nil => .void

/-- A decoder has the tag of the type that it makes. -/
theorem Decoder.tag_of_target? {d : Decoder} {t : TypeId} (h : d.target? = some t) : d.tag = t := by
  cases d with
  | nil => cases h
  | _ => exact Option.some.inj h

/-- Each conversion to the native side gives values with the tag that it is registered for. -/
def Registry.Tagged (r : Registry) : Prop :=
  ∀ t d, r.decoder? t = some d → d.tag = t

/-- A registry is tagged if each of its decoders is. -/
theorem Registry.tagged_of_forall {r : Registry} (h : ∀ e ∈ r.decoders, e.2.tag = e.1) : r.Tagged := by
  intro t d hd
  obtain ⟨e, he, rfl⟩ := Option.map_eq_some_iff.1 hd
  rw [h e (List.mem_of_find?_eq_some he)]
  simpa using List.find?_some he

theorem Registry.Exact.tagged {r : Registry} (h : r.Exact) : r.Tagged :=
  fun t d hd => Decoder.tag_of_target? (h t d hd)

namespace World

variable {w : World} {cx : ContextId} {r : Registry} {v : ForeignValue} {t : TypeId}

/-- What is given has the type of what it is made of. -/
theorem typeId_of_given {α : Type} {f : α → NativeValue} (hf : ∀ a, (f a).typeId = t) {o : Option α}
    {n : NativeValue} (h : given (o.map f) = .ok n) : n.typeId = t := by
  cases o with
  | none => cases h
  | some a =>
    cases h
    exact hf a

/-- What a decoder gives has the type of the decoder. -/
theorem typeId_of_decode {d : Decoder} {n : NativeValue} (h : w.decode cx d v = .ok n) :
    n.typeId = d.tag := by
  cases d with
  | bool => exact typeId_of_given (f := .bool) (fun _ => rfl) h
  | int => exact typeId_of_given (f := .int) (fun _ => rfl) h
  | double => exact typeId_of_given (f := .double) (fun _ => rfl) h
  | string => exact typeId_of_given (f := .string) (fun _ => rfl) h
  | buffer => exact typeId_of_given (f := .buffer) (fun _ => rfl) h
  | «instance» cls =>
    obtain ⟨handle, hh, rfl⟩ := ok_of_map h
    exact congrArg ClassKey.typeId (cls_of_handleFor hh)
  | nil =>
    rw [decode] at h
    split at h
    · cases h
      rfl
    · cases h

theorem ok_of_converted {x : Except Refusal NativeValue} {n : NativeValue}
    (h : converted t x = .ok (.ok n)) : x = .ok n := by
  cases x with
  | ok a =>
    cases h
    rfl
  | error e => cases e <;> cases h

theorem typeId_toVariant (n : NativeValue) : n.toVariant.typeId = .variant := by
  rw [NativeValue.toVariant]
  split
  · assumption
  · rfl

/-- A converted value has the type that it was converted to. -/
theorem typeId_of_fromForeign (hr : r.Tagged) {n : NativeValue}
    (h : w.fromForeign cx r v t = .ok (.ok n)) : n.typeId = t := by
  rw [fromForeign] at h
  split at h
  · next ht =>
    obtain ⟨m, -, rfl⟩ := ok_of_map (ok_of_converted h)
    exact (typeId_toVariant m).trans ht.symm
  split at h
  · next ht =>
    have h := ok_of_converted h
    cases hi : w.itemsOf v with
    | none =>
      rw [hi] at h
      cases h
    | some items =>
      rw [hi] at h
      obtain ⟨values, -, rfl⟩ := ok_of_map h
      exact ht.symm
  split at h
  · cases h
  · next d hd =>
    have h := ok_of_converted h
    cases hp : w.probe cx d v with
    | error e =>
      rw [hp] at h
      cases h
    | ok b =>
      rw [hp] at h
      cases b with
      | false => cases h
      | true => exact (typeId_of_decode h).trans (hr t d hd)

/-! ## Arguments -/

/-- The probe of the declared type lets an argument through. -/
def Passes (w : World) (cx : ContextId) (r : Registry) (p : ForeignValue × TypeId) : Prop :=
  w.canFromForeign cx r p.1 p.2 = .ok true

/-- What an argument is on the native side. -/
def Becomes (w : World) (cx : ContextId) (r : Registry) (p : ForeignValue × TypeId)
    (n : NativeValue) : Prop :=
  w.fromForeign cx r p.1 p.2 = .ok (.ok n)

/-- An argument converts to its declared type. -/
def Converts (w : World) (cx : ContextId) (r : Registry) (p : ForeignValue × TypeId) : Prop :=
  ∃ n, w.Becomes cx r p n

/-- The probe of a value of the context always answers. -/
theorem probe_answers (hv : w.Within cx v) (d : Decoder) : ∃ b, w.probe cx d v = .ok b := by
  cases d with
  | «instance» cls =>
    have hclean : Clean (w.handleFor cx cls v) := clean_handleFor hv
    obtain ⟨h, hh⟩ | hh := hclean.cases
    · exact ⟨true, by rw [probe, hh]; rfl⟩
    · exact ⟨false, by rw [probe, hh]; rfl⟩
  | _ => exact ⟨_, rfl⟩

/-- A conversion of one succeeds, or the value is not convertible. -/
theorem clean_decode (hv : w.Within cx v) (d : Decoder) : Clean (w.decode cx d v) := by
  have hgiven {o : Option NativeValue} : Clean (given o) := by
    cases o with
    | none => exact .refused
    | some n => exact .ok n
  cases d with
  | «instance» cls => exact (clean_handleFor hv).bind fun _ => .ok _
  | nil =>
    rw [decode]
    split
    · exact .ok _
    · exact .refused
  | _ => exact hgiven

/-- **Every probe and every conversion answers**, whatever the registry, and what converts passes. -/
theorem checks (hn : w.Nested) (hv : w.Within cx v) (r : Registry) (t : TypeId) :
    ∃ b x, w.canFromForeign cx r v t = .ok b ∧ w.fromForeign cx r v t = .ok x ∧
      ((∃ n, x = .ok n) → b = true) := by
  rw [canFromForeign, fromForeign]
  by_cases hvariant : t = .variant
  · subst hvariant
    rw [if_pos rfl, if_pos rfl]
    obtain ⟨b, x, hb, hx, hiff, -⟩ := (agrees_variant hn hv).answers
    exact ⟨b, x, hb, hx, hiff.2⟩
  by_cases hlist : t = .list
  · subst hlist
    rw [if_neg (by decide), if_pos rfl, if_neg (by decide), if_pos rfl]
    cases hi : w.itemsOf v with
    | none => exact ⟨false, _, rfl, rfl, by rintro ⟨_, ⟨⟩⟩⟩
    | some items =>
      obtain ⟨b, x, hb, hx, hiff, -⟩ := (agrees_list hn (hv.itemsOf hi)).answers
      exact ⟨b, x, hb, hx, hiff.2⟩
  rw [if_neg hvariant, if_neg hlist, if_neg hvariant, if_neg hlist]
  cases r.decoder? t with
  | none => exact ⟨false, _, rfl, rfl, by rintro ⟨_, ⟨⟩⟩⟩
  | some d =>
    obtain ⟨b, hb⟩ := probe_answers hv d
    dsimp only
    rw [hb]
    cases b with
    | false => exact ⟨false, _, rfl, rfl, by rintro ⟨_, ⟨⟩⟩⟩
    | true =>
      obtain ⟨n, hd⟩ | hd := (clean_decode hv d).cases
      · exact ⟨true, .ok n, rfl, congrArg (converted t) hd, fun _ => rfl⟩
      · exact ⟨true, _, rfl, congrArg (converted t) hd, fun _ => rfl⟩

/-- What converts passes its probe. -/
theorem Converts.passes (hn : w.Nested) {p : ForeignValue × TypeId} (hv : w.Within cx p.1)
    (h : w.Converts cx r p) : w.Passes cx r p := by
  obtain ⟨b, x, hb, hx, himp⟩ := checks hn hv r p.2
  obtain ⟨n, h⟩ := h
  cases hx.symm.trans h
  obtain rfl := himp ⟨n, rfl⟩
  exact hb

/-- For a registry that is exact, what passes converts. -/
theorem Passes.converts (hr : r.Exact) (hn : w.Nested) {p : ForeignValue × TypeId}
    (hv : w.Within cx p.1) (h : w.Passes cx r p) : w.Converts cx r p := by
  obtain ⟨b, x, hb, hx, hiff, -⟩ := answers_of_exact hr hn hv p.2
  cases hb.symm.trans h
  obtain ⟨n, rfl⟩ := hiff.1 rfl
  exact ⟨n, hx⟩

section

variable {l : List (ForeignValue × TypeId)} {natives : List NativeValue}

/-- Arguments that become natives convert. -/
theorem converts_of_becomes (h : List.Forall₂ (w.Becomes cx r) l natives) :
    ∀ p ∈ l, w.Converts cx r p := by
  induction h with
  | nil => exact nofun
  | cons hp _ ih => exact List.forall_mem_cons.2 ⟨⟨_, hp⟩, ih⟩

/-- They become natives of the declared types. -/
theorem typeIds_of_becomes (hr : r.Tagged) (h : List.Forall₂ (w.Becomes cx r) l natives) :
    natives.map (·.typeId) = l.map (·.2) := by
  induction h with
  | nil => rfl
  | cons hp _ ih => rw [List.map_cons, List.map_cons, typeId_of_fromForeign hr hp, ih]

end

end World

/-! ## Checking arguments -/

namespace Engine

open World

variable {w : World} {cx : ContextId} {r : Registry} {l : List (ForeignValue × TypeId)}

theorem run_canFromForeign {v t b} (h : w.canFromForeign cx r v t = .ok b) :
    (canFromForeign cx r v t).run w = .ok b w := by
  rw [canFromForeign, run_get_bind, h]
  rfl

theorem run_fromForeign {v t x} (h : w.fromForeign cx r v t = .ok x) :
    (fromForeign cx r v t).run w = .ok x w := by
  rw [fromForeign, run_get_bind, h]
  rfl

/-- The first argument that its probe refuses, counting on from `index`. -/
theorem run_firstRefused (hn : w.Nested) (hl : ∀ p ∈ l, w.Within cx p.1) (index : Nat) :
    (∀ p ∈ l, w.Passes cx r p) ∧ (firstRefused cx r index l).run w = .ok none w ∨
    ∃ place p, IsFirst (w.Passes cx r) l place p ∧
      (firstRefused cx r index l).run w = .ok (some (index + place, p.2)) w := by
  induction l generalizing index with
  | nil => exact .inl ⟨nofun, rfl⟩
  | cons p l ih =>
    obtain ⟨hp, hl⟩ := List.forall_mem_cons.1 hl
    obtain ⟨b, -, hb, -⟩ := checks hn hp r p.2
    rw [firstRefused, run_bind_of_ok (run_canFromForeign hb)]
    cases b with
    | false =>
      have hlacks : ¬ w.Passes cx r p := fun h => nomatch hb.symm.trans h
      exact .inr ⟨0, p, .head hlacks, rfl⟩
    | true =>
      obtain ⟨hall, hrun⟩ | ⟨place, q, hq, hrun⟩ := ih hl (index + 1)
      · exact .inl ⟨List.forall_mem_cons.2 ⟨hb, hall⟩, hrun⟩
      · refine .inr ⟨place + 1, q, hq.tail hb, ?_⟩
        rw [← Nat.add_assoc, Nat.add_right_comm]
        exact hrun

/-- The converted arguments, or the first that does not convert. -/
theorem run_convertArguments (hn : w.Nested) (hl : ∀ p ∈ l, w.Within cx p.1) (index : Nat) :
    (∃ natives, List.Forall₂ (w.Becomes cx r) l natives ∧
      (convertArguments cx r index l).run w = .ok (.ok natives) w) ∨
    ∃ place p, IsFirst (w.Converts cx r) l place p ∧
      (convertArguments cx r index l).run w = .ok (.error (index + place, p.2)) w := by
  induction l generalizing index with
  | nil => exact .inl ⟨[], .nil, rfl⟩
  | cons p l ih =>
    obtain ⟨hp, hl⟩ := List.forall_mem_cons.1 hl
    obtain ⟨-, x, -, hx, -⟩ := checks hn hp r p.2
    rw [convertArguments, run_bind_of_ok (run_fromForeign hx)]
    cases x with
    | error e =>
      have hlacks : ¬ w.Converts cx r p := fun ⟨n, h⟩ => nomatch hx.symm.trans h
      exact .inr ⟨0, p, .head hlacks, rfl⟩
    | ok n =>
      obtain ⟨natives, hall, hrun⟩ | ⟨place, q, hq, hrun⟩ := ih hl (index + 1)
      · refine .inl ⟨n :: natives, .cons hx hall, ?_⟩
        rw [run_bind_of_ok hrun]
        rfl
      · refine .inr ⟨place + 1, q, hq.tail ⟨n, hx⟩, ?_⟩
        rw [run_bind_of_ok hrun, ← Nat.add_assoc, Nat.add_right_comm]
        rfl

end Engine

/-- **What the arguments of a call come to**: the native arguments, or the first thing that is wrong. -/
inductive World.Judged (w : World) (cx : ContextId) (r : Registry) (m : MethodDescriptor)
    (args : List ForeignValue) : Except BridgeError (List NativeValue) → Prop where
  | miscounted (h : args.length ≠ m.arity) :
      Judged w cx r m args (.error (.arityMismatch m.name m.arity args.length))
  | refused {place p} (hc : args.length = m.arity)
      (hf : IsFirst (w.Passes cx r) (args.zip m.parameters) place p) :
      Judged w cx r m args (.error (.argumentConversion m.name place (ClassKey.typeName p.2)))
  /-- All probes let their arguments through, but a conversion fails. -/
  | unconverted {place p} (hc : args.length = m.arity)
      (hp : ∀ p ∈ args.zip m.parameters, w.Passes cx r p)
      (hf : IsFirst (w.Converts cx r) (args.zip m.parameters) place p) :
      Judged w cx r m args (.error (.argumentConversion m.name place (ClassKey.typeName p.2)))
  | accepted {natives} (hc : args.length = m.arity)
      (hn : List.Forall₂ (w.Becomes cx r) (args.zip m.parameters) natives) :
      Judged w cx r m args (.ok natives)

namespace World.Judged

variable {w : World} {cx : ContextId} {r : Registry} {m : MethodDescriptor}
  {args : List ForeignValue} {verdict : Except BridgeError (List NativeValue)}

/-- **When a call is accepted**: the arguments are as many as declared, and each converts. -/
theorem accepts_iff (h : w.Judged cx r m args verdict) (hn : w.Nested)
    (hargs : ∀ v ∈ args, w.Within cx v) :
    (∃ natives, verdict = .ok natives) ↔
      args.length = m.arity ∧ ∀ p ∈ args.zip m.parameters, w.Converts cx r p := by
  cases h with
  | miscounted hc => exact iff_of_false nofun fun h => hc h.1
  | refused hc hf =>
    refine iff_of_false nofun fun h => hf.lacks ?_
    exact (h.2 _ hf.mem).passes hn (hargs _ (List.of_mem_zip hf.mem).1)
  | unconverted hc hp hf => exact iff_of_false nofun fun h => hf.lacks (h.2 _ hf.mem)
  | accepted hc hb =>
    refine iff_of_true ⟨_, rfl⟩ ⟨hc, fun p hp => ?_⟩
    exact converts_of_becomes hb p hp

/-- The native arguments have the declared types. -/
theorem typeIds (hr : r.Tagged) {natives} (h : w.Judged cx r m args (.ok natives)) :
    natives.map (·.typeId) = m.parameters := by
  cases h with
  | accepted hc hb =>
    rw [typeIds_of_becomes hr hb, List.map_snd_zip (Nat.le_of_eq hc.symm)]

end World.Judged

namespace Engine

open World

variable {w : World} {cx : ContextId} {r : Registry} {m : MethodDescriptor}
  {args : List ForeignValue}

theorem run_registry {id i} (hb : w.bridge? cx = some (id, i)) :
    (registry cx).run w = .ok i.registry w := by
  rw [registry, run_bind_of_ok (run_bridge hb)]
  rfl

/-- **Checking arguments** changes nothing, and gives what they come to. -/
theorem run_arguments (hn : w.Nested) {id i} (hb : w.bridge? cx = some (id, i))
    (hargs : ∀ v ∈ args, w.Within cx v) :
    ∃ verdict, w.Judged cx i.registry m args verdict ∧
      (arguments cx m args).run w = match verdict with
        | .ok natives => .ok natives w
        | .error e => w.throws cx e := by
  have hwithin : ∀ p ∈ args.zip m.parameters, w.Within cx p.1 := fun p hp =>
    hargs p.1 (List.of_mem_zip hp).1
  rw [arguments]
  by_cases hc : args.length ≠ m.arity
  · refine ⟨_, .miscounted hc, ?_⟩
    rw [if_pos hc]
    rfl
  have hlength := not_not.1 hc
  rw [if_neg hc]
  change ∃ verdict, _ ∧ (registry cx >>= _).run w = _
  rw [run_bind_of_ok (run_registry hb)]
  obtain ⟨hall, hrun⟩ | ⟨place, p, hp, hrun⟩ := run_firstRefused (r := i.registry) hn hwithin 0
  · dsimp only
    rw [run_bind_of_ok hrun]
    obtain ⟨natives, hb', hrun⟩ | ⟨place, p, hp, hrun⟩ :=
      run_convertArguments (r := i.registry) hn hwithin 0
    · refine ⟨_, .accepted hlength hb', ?_⟩
      dsimp only
      rw [run_bind_of_ok hrun]
      rfl
    · refine ⟨_, .unconverted hlength hall hp, ?_⟩
      dsimp only
      rw [run_bind_of_ok hrun, Nat.zero_add]
      rfl
  · refine ⟨_, .refused hlength hp, ?_⟩
    dsimp only
    rw [run_bind_of_ok hrun, Nat.zero_add]
    rfl

/-! ## Receivers -/

/-- What carries the handle that a value is bound to. -/
theorem bound_of_handleFor {cls : ClassKey} {id : ObjectId} {h : Handle}
    (hh : w.handleFor cx cls (.object id) = .ok h) : ∃ o hid, w.object? id = some o ∧
      o.context = cx ∧ o.attachment = some (.handle hid) ∧ w.handle? hid = some h ∧
      h.cls = cls := by
  have hcls := cls_of_handleFor hh
  have hbound : w.boundHandle cx id = .ok h := by
    rw [handleFor] at hh
    cases hb : w.boundHandle cx id with
    | error e =>
      rw [hb] at hh
      cases hh
    | ok handle =>
      rw [hb] at hh
      have hh : (if handle.cls = cls then .ok handle else .error .notConvertible) =
        (.ok h : Except Refusal Handle) := hh
      split at hh
      · exact hh
      · cases hh
  rw [boundHandle] at hbound
  split at hbound
  · cases hbound
  · next o ho =>
    split at hbound
    · cases hbound
    · next hc =>
      split at hbound
      · next hid ha =>
        split at hbound
        · next handle hhandle =>
          cases hbound
          exact ⟨o, hid, ho, not_not.1 hc, ha, hhandle, hcls⟩
        · cases hbound
      · cases hbound

/-- A receiver that is bound to the class has a handle. -/
theorem run_receiver {cls : ClassKey} {info : CallInfo} {h : Handle}
    (hh : w.handleFor cx cls info.receiver = .ok h) : (receiver cx cls info).run w = .ok h w := by
  obtain ⟨v, args, data, target⟩ := info
  cases v with
  | object id =>
    -- The object is there, is one of the context, and carries the handle.
    obtain ⟨o, hid, ho, hc, ha, hhandle, hcls⟩ := bound_of_handleFor hh
    have hof : (handleOf cx id).run w = .ok (some (hid, h)) w := by
      rw [handleOf, run_bind_of_ok (run_checkOwned ho hc), run_bind_of_ok (run_object ho), ha]
      simp only [run_get_bind, hhandle]
      rfl
    rw [receiver, run_get_bind]
    dsimp only
    rw [run_bind_of_ok hof]
    simp only [hcls]
    rfl
  | _ => cases hh

theorem run_methodAt {cls : ClassKey} {index : Nat}
    (hm : (w.plans.descriptor cls).methods[index]? = some m) :
    (methodAt cls index).run w = .ok m w := by
  rw [methodAt, run_get_bind]
  simp only [hm]
  rfl

end Engine

/-! ## Native code -/

/-- **The native code behind a method**: it is that of the instance that the receiver holds, or that of
the class. -/
inductive World.Behind (w : World) (cx : ContextId) (cls : ClassKey) (info : CallInfo) :
    MemberRole → (List NativeValue → Engine Engine.Outcome) → Prop where
  | method {h} (hh : w.handleFor cx cls info.receiver = .ok h) :
      Behind w cx cls info .invoke (Engine.invoke h.inst info.data)
  | static : Behind w cx cls info .invokeStatic (Engine.invokeStatic cls info.data)

/-- **What comes of the end of native code** in the world `w`. -/
inductive World.Returned (w : World) (run : Runner) (cx : ContextId) (r : Registry)
    (m : MethodDescriptor) : Engine.Outcome → EStateM.Result Stop World ForeignValue → Prop where
  | failed {e} : Returned w run cx r m (.error e) (w.throws cx (.invocation m.name e))
  | void {v} (h : m.returns = .void) : Returned w run cx r m (.ok v) (.ok .undefined w)
  /-- The result cannot be read as one of the declared type. -/
  | mistyped {v} (h : m.returns ≠ .void) (hv : v.convert m.returns = none) :
      Returned w run cx r m (.ok v)
        (w.throws cx (.resultConversion m.name (ClassKey.typeName v.typeId)))
  | converted {v u f w'} (h : m.returns ≠ .void) (hv : v.convert m.returns = some u)
      (hf : (Engine.toForeign run cx r u).run w = .ok (.ok f) w') :
      Returned w run cx r m (.ok v) (.ok f w')
  | unconverted {v u e w'} (h : m.returns ≠ .void) (hv : v.convert m.returns = some u)
      (hf : (Engine.toForeign run cx r u).run w = .ok (.error e) w') :
      Returned w run cx r m (.ok v)
        (w'.throws cx (.resultConversion m.name (ClassKey.typeName v.typeId)))
  /-- The conversion throws, or stops for another reason. -/
  | stopped {v u stop w'} (h : m.returns ≠ .void) (hv : v.convert m.returns = some u)
      (hf : (Engine.toForeign run cx r u).run w = .error stop w') :
      Returned w run cx r m (.ok v) (.error stop w')

namespace Engine

open World

variable {w : World} {cx : ContextId}

/-- **How a call ends**, whatever native code gives. -/
theorem returned {id i} (hb : w.bridge? cx = some (id, i)) (run : Runner) (m : MethodDescriptor)
    (outcome : Outcome) :
    w.Returned run cx i.registry m outcome ((finish run cx m outcome).run w) := by
  cases outcome with
  | error e => exact .failed
  | ok v =>
    rw [finish, resultToForeign]
    by_cases hvoid : m.returns = .void
    · rw [if_pos hvoid]
      exact .void hvoid
    rw [if_neg hvoid]
    cases hv : v.convert m.returns with
    | none => exact .mistyped hvoid hv
    | some u =>
      dsimp only
      rw [run_bind_of_ok (run_registry hb)]
      cases hf : (toForeign run cx i.registry u).run w with
      | error stop w' =>
        rw [run_bind_of_error hf]
        exact .stopped hvoid hv hf
      | ok result w' =>
        rw [run_bind_of_ok hf]
        cases result with
        | error e => exact .unconverted hvoid hv hf
        | ok f => exact .converted hvoid hv hf

/-- A call checks its arguments, runs native code and gives what that ends with. -/
theorem run_member {cls : ClassKey} {info : CallInfo} {m : MethodDescriptor} {role native}
    (hm : (w.plans.descriptor cls).methods[info.data]? = some m)
    (hnative : w.Behind cx cls info role native) (run : Runner) :
    (runMember run cx cls role info).run w =
      (arguments cx m info.args >>= fun natives => native natives >>= finish run cx m).run w := by
  cases hnative with
  | method hh =>
    rw [runMember, invokeMember, run_bind_of_ok (run_methodAt hm), run_bind_of_ok (run_receiver hh)]
  | static => rw [runMember, invokeStaticMember, run_bind_of_ok (run_methodAt hm)]

/-- Whatever native code does, the context keeps its bridge. -/
theorem keepsBridges_of_behind {cls info role native} (h : w.Behind cx cls info role native)
    (natives : List NativeValue) {outcome w'} (hrun : (native natives).run w = .ok outcome w') :
    w.KeepsBridges w' := by
  rw [← after_of_ok hrun]
  cases h with
  | method => exact Conserves.invoke w
  | static => exact Conserves.invokeStatic w

end Engine

/-! ## The law -/

/-- **Calls are all or nothing**, with the built-in conversions and those of any classes.  On a context with
such a bridge, a method is called on a receiver that is bound to its class, or as a static one, with arguments
of the context.  If they are as many as declared and each passes its probe, native code runs once, with what
they convert to, each of its declared type, and what it ends with is what the call gives.  Otherwise the call
throws the error that says what is wrong first, and nothing else happens. -/
theorem Reachable.invokes {w : World} (h : Reachable w) {cx : ContextId} {id i}
    (hb : w.bridge? cx = some (id, i)) {plans : Plans} {keys : List ClassKey} {limit : Nat}
    {dynamic : List TypeId} (hr : i.registry = .withClasses plans keys limit dynamic) {cls : ClassKey}
    {info : CallInfo} {m : MethodDescriptor}
    (hm : (w.plans.descriptor cls).methods[info.data]? = some m)
    (hargs : ∀ v ∈ info.args, w.Within cx v) {role native}
    (hnative : w.Behind cx cls info role native) (run : Runner) :
    ∃ verdict, w.Judged cx i.registry m info.args verdict ∧
      ((∃ natives, verdict = .ok natives) ↔ info.args.length = m.arity ∧
        ∀ p ∈ info.args.zip m.parameters, w.Passes cx i.registry p) ∧
      (∀ e, verdict = .error e → (Engine.runMember run cx cls role info).run w = w.throws cx e ∧
        w.Spares (w.adding (e.object cx))) ∧
      ∀ natives, verdict = .ok natives →
        (Engine.runMember run cx cls role info).run w =
          (native natives >>= Engine.finish run cx m).run w ∧
        natives.map (·.typeId) = m.parameters ∧
        ∀ outcome w', (native natives).run w = .ok outcome w' →
          w'.Returned run cx i.registry m outcome
            ((Engine.runMember run cx cls role info).run w) := by
  have hexact : i.registry.Exact := hr ▸ Registry.exact_withClasses
  obtain ⟨verdict, hj, hrun⟩ := Engine.run_arguments (m := m) h.nested hb hargs
  have hcall := Engine.run_member hm hnative run
  have hwithin : ∀ p ∈ info.args.zip m.parameters, w.Within cx p.1 := fun p hp =>
    hargs p.1 (List.of_mem_zip hp).1
  refine ⟨verdict, hj, (hj.accepts_iff h.nested hargs).trans (and_congr_right fun _ => ?_), ?_, ?_⟩
  · exact forall₂_congr fun p hp =>
      ⟨(·.passes h.nested (hwithin p hp)), (·.converts hexact h.nested (hwithin p hp))⟩
  · rintro e rfl
    exact ⟨hcall.trans (Engine.run_bind_of_error hrun), w.spares_adding _⟩
  · rintro natives rfl
    have hnatives := hcall.trans (Engine.run_bind_of_ok hrun)
    refine ⟨hnatives, hj.typeIds hexact.tagged, fun outcome w' hend => ?_⟩
    obtain ⟨i', hb', hr⟩ := Engine.keepsBridges_of_behind hnative natives hend cx id i hb
    rw [hnatives, Engine.run_bind_of_ok hend, ← hr]
    exact Engine.returned hb' run m outcome

namespace Valve

/-- A class with a static method that takes a value of the void type and gives a number, and another that takes
a number. -/
def plan : Puppet.Plan where
  descriptor := (({ name := "Valve" } : TypeDescriptor).static "open" [.void] .int).static "turn" [.int] .int
  behaviours := [some (.returns (.int 7)), some (.returns (.int 7))]

/-- The class. -/
def key : ClassKey :=
  .puppet (Fin.last 2)

/-- The built-in conversions and those of the class. -/
def registry : Registry :=
  .withClasses ⟨fun _ => plan⟩ [key] 10 []

/-- The void type converts from the text "nil", though every text passes its probe. -/
def nilRegistry : Registry :=
  (Registry.base.withEncoder .void .nil).withDecoder .void .nil

/-- A context with that class and some conversions. -/
def world (r : Registry) : World :=
  (({ plans := ⟨fun _ => plan⟩ } : World).openContext ⟨0⟩).install ⟨0⟩ r

theorem reachable_world (r : Registry) : Reachable (world r) :=
  ⟨⟨fun _ => plan⟩, .tail (.single (.openContext ⟨0⟩)) (.install r rfl)⟩

/-- The methods. -/
def opens : MethodDescriptor :=
  ⟨"open", [.void], .int, true, .method⟩

def turns : MethodDescriptor :=
  ⟨"turn", [.int], .int, true, .method⟩

/-- Calling a method with a value. -/
def call (index : Nat) (v : ForeignValue) : CallInfo where
  args := [v]
  data := index

/-- What the function of a method does with a value. -/
def run (r : Registry) (index : Nat) (v : ForeignValue) : EStateM.Result Stop World ForeignValue :=
  (Engine.runMember (Session.runner 1) ⟨0⟩ key .invokeStatic (call index v)).run (world r)

/-- What running a native method gives. -/
def runNative (r : Registry) (index : Nat) (m : MethodDescriptor) (natives : List NativeValue) :
    EStateM.Result Stop World ForeignValue :=
  (Engine.invokeStatic key index natives >>= Engine.finish (Session.runner 1) ⟨0⟩ m).run (world r)

end Valve

/-- A number is accepted and runs the native method; a text throws. -/
theorem invokes_of_number :
    (∃ natives, natives.map (·.typeId) = [.int] ∧ Valve.run Valve.registry 1 (.number (Number.ofInt32 3)) =
      Valve.runNative Valve.registry 1 Valve.turns natives) ∧
    ∃ e, Valve.run Valve.registry 1 (.string "x") = (Valve.world Valve.registry).throws ⟨0⟩ e := by
  have hb : (Valve.world Valve.registry).bridge? ⟨0⟩ = some (⟨0⟩, { registry := Valve.registry }) := rfl
  have hm (v : ForeignValue) : ((Valve.world Valve.registry).plans.descriptor Valve.key).methods[(Valve.call
      1 v).data]? = some Valve.turns := rfl
  have hargs {v : ForeignValue} (hv : v.asObject? = none) :
      ∀ u ∈ (Valve.call 1 v).args, (Valve.world Valve.registry).Within ⟨0⟩ u := by
    intro u hu
    cases List.mem_singleton.1 hu
    exact .plain hv
  constructor
  · obtain ⟨verdict, -, haccepts, -, hruns⟩ := (Valve.reachable_world Valve.registry).invokes hb rfl
      (hm (.number (Number.ofInt32 3))) (hargs rfl) .static (Session.runner 1)
    have hpasses : ∀ p ∈ (Valve.call 1 (.number (Number.ofInt32 3))).args.zip Valve.turns.parameters,
        (Valve.world Valve.registry).Passes ⟨0⟩ Valve.registry p := by
      intro p hp
      cases List.mem_singleton.1 hp
      rfl
    obtain ⟨natives, hverdict⟩ := haccepts.2 ⟨rfl, hpasses⟩
    obtain ⟨hrun, htags, -⟩ := hruns natives hverdict
    exact ⟨natives, htags, hrun⟩
  · obtain ⟨verdict, -, haccepts, hthrows, -⟩ := (Valve.reachable_world Valve.registry).invokes hb rfl
      (hm (.string "x")) (hargs rfl) .static (Session.runner 1)
    cases verdict with
    | error e => exact ⟨e, (hthrows e rfl).1⟩
    | ok natives =>
      have hpasses := (haccepts.1 ⟨natives, rfl⟩).2 _ (List.mem_singleton_self _)
      cases hpasses

/-- **To pass is not enough** for conversions of any other kind: the text passes its probe, but does not
convert, and the native method does not run. -/
theorem passes_not_sufficient :
    (Valve.call 0 (.string "x")).args.length = Valve.opens.arity ∧
    (∀ p ∈ (Valve.call 0 (.string "x")).args.zip Valve.opens.parameters,
      (Valve.world Valve.nilRegistry).Passes ⟨0⟩ Valve.nilRegistry p) ∧
    Valve.run Valve.nilRegistry 0 (.string "x") =
      (Valve.world Valve.nilRegistry).throws ⟨0⟩ (.argumentConversion "open" 0 "void") ∧
    ∀ natives, Valve.run Valve.nilRegistry 0 (.string "x") ≠
      Valve.runNative Valve.nilRegistry 0 Valve.opens natives := by
  refine ⟨rfl, fun p hp => ?_, rfl, fun natives => ?_⟩
  · cases List.mem_singleton.1 hp
    rfl
  · have hrun : Valve.runNative Valve.nilRegistry 0 Valve.opens natives =
        .ok (.number (Number.ofInt32 7)) (Valve.world Valve.nilRegistry) := rfl
    rw [hrun]
    exact nofun

end Isthmus
