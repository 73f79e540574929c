import Isthmus.Proofs.Run.Dispatch
import Isthmus.Proofs.Run.Growth
import Isthmus.Proofs.Values.Probe
import Isthmus.Session.Objects

/-!
# Proofs/Values/Ownership — objects in the hands of another context

Every operation that a context carries out on an object first asks whether the object is its own, with
three exceptions: the state of a promise is shown to anybody, what is called must be a function before
anything else is asked, and a conversion asks only where native data decides (`World.Exposes`): an array
is taken for its items and an array buffer for its bytes, whoever made it.
`Reachable.foreign_object` says what becomes of every operation.
-/

namespace Isthmus

/-! ## Ending at once -/

namespace Engine

variable {α β : Type} {w : World} {owner cx : ContextId}

/-- The action aborts because a context met an object of another one, and nothing has changed. -/
def FailsFast (w : World) (owner cx : ContextId) (m : Engine α) : Prop :=
  m.run w = .error (.aborted ("object from context #" ++ toString owner.index ++
    " used in context #" ++ toString cx.index)) w

/-- What fails fast fails whatever follows. -/
theorem FailsFast.bind {m : Engine α} (h : FailsFast w owner cx m) (f : α → Engine β) :
    FailsFast w owner cx (m >>= f) :=
  run_bind_of_error h

/-- What fails fast may come after what succeeds. -/
theorem FailsFast.step {m : Engine α} {f : α → Engine β} {a : α} (hm : m.run w = .ok a w)
    (hf : FailsFast w owner cx (f a)) : FailsFast w owner cx (m >>= f) :=
  (run_bind_of_ok hm).trans hf

/-- The check of a context fails fast for an object of another. -/
theorem failsFast_checkOwned {id : ObjectId} {o} (ho : w.object? id = some o) (hc : o.context ≠ cx) :
    FailsFast w o.context cx (checkOwned cx id) := by
  refine .step (run_object ho) ?_
  rw [if_pos hc]
  rfl

end Engine

/-! ## What a conversion comes across -/

section

variable {ε α β : Type} {f : α → Except ε β}

theorem map_eq_error_iff {γ : Type} {g : β → γ} {x : Except ε β} {e : ε} :
    (x >>= fun b => pure (g b)) = .error e ↔ x = .error e := by
  cases x with
  | error e' =>
    constructor <;> intro h <;> cases h <;> rfl
  | ok b => exact iff_of_false nofun nofun

/-- Going through a list stops at its first failure. -/
theorem mapM_eq_error_iff {l : List α} {e : ε} : l.mapM f = .error e ↔
    ∃ before a after, l = before ++ a :: after ∧ (∀ b ∈ before, ∃ x, f b = .ok x) ∧ f a = .error e := by
  induction l with
  | nil =>
    refine iff_of_false nofun ?_
    rintro ⟨before, a, after, h, -⟩
    simp at h
  | cons a l ih =>
    rw [List.mapM_cons]
    cases ha : f a with
    | error e' =>
      constructor
      · intro h
        cases h
        exact ⟨[], a, l, rfl, nofun, ha⟩
      · rintro ⟨before, b, after, heq, hbefore, hb⟩
        cases before with
        | nil =>
          obtain ⟨rfl, -⟩ := List.cons.inj heq
          cases ha.symm.trans hb
          rfl
        | cons c before =>
          obtain ⟨rfl, -⟩ := List.cons.inj heq
          obtain ⟨x, hx⟩ := hbefore a (List.mem_cons_self ..)
          cases ha.symm.trans hx
    | ok x =>
      have hrest : ((do let bs ← l.mapM f; pure (x :: bs)) = .error e) ↔ l.mapM f = .error e :=
        map_eq_error_iff
      refine hrest.trans (ih.trans ⟨?_, ?_⟩)
      · rintro ⟨before, b, after, rfl, hbefore, hb⟩
        exact ⟨a :: before, b, after, rfl, List.forall_mem_cons.2 ⟨⟨x, ha⟩, hbefore⟩, hb⟩
      · rintro ⟨before, b, after, heq, hbefore, hb⟩
        cases before with
        | nil =>
          obtain ⟨rfl, -⟩ := List.cons.inj heq
          cases ha.symm.trans hb
        | cons c before =>
          obtain ⟨rfl, rfl⟩ := List.cons.inj heq
          exact ⟨before, b, after, rfl, (List.forall_mem_cons.1 hbefore).2, hb⟩

end

namespace World

variable {w : World} {cx owner : ContextId}

/-- **Converting the value comes across an object of another context**: the value is such an object and
native data would decide, or it is an array with such an item, and all items before have counterparts. -/
inductive Exposes (w : World) (cx owner : ContextId) : ForeignValue → Prop where
  | object {id o} (ho : w.object? id = some o) (hc : o.context = owner) (hne : owner ≠ cx)
      (ha : ∀ items, o.kind ≠ .array items) (hb : o.buffer? = none) : Exposes w cx owner (.object id)
  | item {id o before v after} (ho : w.object? id = some o)
      (hk : o.kind = .array (before ++ v :: after)) (hb : ∀ u ∈ before, ∃ n, w.infer cx u = .ok n)
      (hv : Exposes w cx owner v) : Exposes w cx owner (.object id)

/-- The handle of a foreign object is refused. -/
theorem boundHandle_foreign {id : ObjectId} {o} (ho : w.object? id = some o) (hc : o.context ≠ cx) :
    w.boundHandle cx id = .error (.foreignContext o.context) := by
  rw [boundHandle, ho]
  exact if_pos hc

theorem boundHandle_eq_foreign_iff {id : ObjectId} {o} (ho : w.object? id = some o) :
    w.boundHandle cx id = .error (.foreignContext owner) ↔ o.context = owner ∧ owner ≠ cx := by
  constructor
  · intro h
    by_cases hc : o.context = cx
    · exact absurd h (clean_boundHandle (fun o' ho' => Option.some.inj (ho.symm.trans ho') ▸ hc) owner)
    · cases (boundHandle_foreign ho hc).symm.trans h
      exact ⟨rfl, hc⟩
  · rintro ⟨rfl, hne⟩
    exact boundHandle_foreign ho hne

theorem toVariant_eq_error_iff {x : Except Refusal NativeValue} {e : Refusal} :
    (do return (← x).toVariant) = .error e ↔ x = .error e :=
  map_eq_error_iff

/-- Inferring an item and wrapping it up stops where inferring all items does. -/
theorem items_eq_foreign_iff {items : List ForeignValue} :
    (items.mapM fun item => do return (← w.infer cx item).toVariant) = .error (.foreignContext owner) ↔
      ∃ before v after, items = before ++ v :: after ∧
        (∀ u ∈ before, ∃ n, w.infer cx u = .ok n) ∧ w.infer cx v = .error (.foreignContext owner) := by
  rw [mapM_eq_error_iff]
  simp only [exists_ok_map, toVariant_eq_error_iff]

/-- **A conversion that knows no target** fails over contexts just in case it comes across an object of
another one. -/
theorem infer_eq_foreign_iff (hn : w.Nested) {v : ForeignValue} :
    w.infer cx v = .error (.foreignContext owner) ↔ w.Exposes cx owner v := by
  constructor
  · have hobject (n : Nat) : ∀ id : ObjectId, id.index = n →
        w.infer cx (.object id) = .error (.foreignContext owner) → w.Exposes cx owner (.object id) := by
      -- the items of an array are older objects than the array
      induction n using Nat.strongRecOn with
      | _ n ih =>
        rintro id rfl h
        cases ho : w.object? id with
        | none => cases (infer_gone ho).symm.trans h
        | some o =>
          by_cases ha : ∃ items, o.kind = .array items
          · obtain ⟨items, hk⟩ := ha
            rw [infer_array hn ho hk, map_eq_error_iff, items_eq_foreign_iff] at h
            obtain ⟨before, v, after, rfl, hbefore, hv⟩ := h
            cases v with
            | object p =>
              have hp := hn id o _ ho hk p (List.mem_append_right _ (List.mem_cons_self ..))
              exact .item ho hk hbefore (ih p.index hp p rfl hv)
            | _ => cases hv
          · have ha := not_exists.1 ha
            rw [infer_object ho ha] at h
            cases hb : o.buffer? with
            | some b =>
              rw [hb] at h
              cases h
            | none =>
              rw [hb] at h
              obtain ⟨hc, hne⟩ := (boundHandle_eq_foreign_iff ho).1 (map_eq_error_iff.1 h)
              exact .object ho hc hne ha hb
    intro h
    cases v with
    | object id => exact hobject id.index id rfl h
    | _ => cases h
  · intro h
    induction h with
    | object ho hc hne ha hb =>
      rw [infer_object ho ha, hb]
      exact map_eq_error_iff.2 ((boundHandle_eq_foreign_iff ho).2 ⟨hc, hne⟩)
    | item ho hk hb hv ih =>
      rw [infer_array hn ho hk, map_eq_error_iff, items_eq_foreign_iff]
      exact ⟨_, _, _, rfl, hb, ih⟩

/-- An answer is refused for a foreign object alone. -/
theorem answer_eq_foreign_iff {α : Type} {x : Except Refusal α} :
    answer x = .error (.foreignContext owner) ↔ x = .error (.foreignContext owner) := by
  cases x with
  | ok a => exact iff_of_false nofun nofun
  | error e => cases e <;> simp [answer]

/-- Asking for all items stops where going through them does. -/
theorem inferAll_eq_foreign_iff {items : List ForeignValue} :
    w.inferAll cx items = .error (.foreignContext owner) ↔
      ∃ before v after, items = before ++ v :: after ∧
        (∀ u ∈ before, ∃ n, w.infer cx u = .ok n) ∧ w.infer cx v = .error (.foreignContext owner) := by
  rw [← mapM_eq_error_iff]
  induction items with
  | nil => exact iff_of_false nofun nofun
  | cons v items ih =>
    rw [inferAll, List.mapM_cons]
    cases hv : w.infer cx v with
    | ok n => exact ih.trans map_eq_error_iff.symm
    | error e => cases e <;> simp [answer, bind, Except.bind, pure, Except.pure]

theorem converted_eq_foreign_iff {t : TypeId} {x : Except Refusal NativeValue} :
    converted t x = .error (.foreignContext owner) ↔ x = .error (.foreignContext owner) := by
  cases x with
  | ok a => exact iff_of_false nofun nofun
  | error e => cases e <;> simp [converted]

theorem exists_answer {α : Type} {x : Except Refusal α} (h : Clean x) : ∃ b, answer x = .ok b := by
  obtain ⟨a, rfl⟩ | rfl := h.cases
  · exact ⟨true, rfl⟩
  · exact ⟨false, rfl⟩

theorem exists_converted {t : TypeId} {x : Except Refusal NativeValue} (h : Clean x) :
    ∃ result, converted t x = .ok result := by
  obtain ⟨a, rfl⟩ | rfl := h.cases
  · exact ⟨.ok a, rfl⟩
  · exact ⟨.error (.notConvertible (ClassKey.typeName t)), rfl⟩

/-- Asking for all items has an answer, unless contexts met. -/
theorem exists_inferAll {items : List ForeignValue} (h : Clean (w.inferAll cx items)) :
    ∃ b, w.inferAll cx items = .ok b := by
  induction items with
  | nil => exact ⟨true, rfl⟩
  | cons v items ih =>
    rw [inferAll] at h ⊢
    cases hv : w.infer cx v with
    | ok n =>
      rw [hv] at h
      exact ih h
    | error e =>
      rw [hv] at h
      cases e with
      | notConvertible => exact ⟨false, rfl⟩
      | foreignContext owner => exact absurd rfl (h owner)

/-- The type takes a value by what it is made of: any value is a variant, and an array is a list. -/
def Open (w : World) (v : ForeignValue) (t : TypeId) : Prop :=
  t = .variant ∨ t = .list ∧ ∃ items, w.itemsOf v = some items

variable {v : ForeignValue} {t : TypeId}

/-- An array exposes a foreign object if an item does. -/
theorem exposes_array_iff (hn : w.Nested) {items} (hi : w.itemsOf v = some items) :
    (items.mapM fun item => do return (← w.infer cx item).toVariant) = .error (.foreignContext owner) ↔
      w.Exposes cx owner v := by
  obtain ⟨o, ho, hitems⟩ := Option.bind_eq_some_iff.1 hi
  obtain ⟨id, hid, ho⟩ := Option.bind_eq_some_iff.1 ho
  cases v with
  | object id =>
    cases hid
    have hk : o.kind = .array items := by
      rw [Object.items?] at hitems
      split at hitems
      · next hk =>
        cases hitems
        exact hk
      · cases hitems
    rw [← infer_eq_foreign_iff hn, infer_array hn ho hk, map_eq_error_iff]
  | _ => cases hid

/-- A probe fails exactly where a foreign object is exposed. -/
theorem canFromForeign_eq_foreign_iff (hn : w.Nested) (registry : Registry) (ht : w.Open v t) :
    w.canFromForeign cx registry v t = .error (.foreignContext owner) ↔ w.Exposes cx owner v := by
  obtain rfl | ⟨rfl, items, hi⟩ := ht
  · rw [canFromForeign, if_pos rfl, answer_eq_foreign_iff, infer_eq_foreign_iff hn]
  · rw [canFromForeign, if_neg (by decide), if_pos rfl, hi, ← exposes_array_iff hn hi,
      items_eq_foreign_iff]
    exact inferAll_eq_foreign_iff

/-- A conversion fails exactly there. -/
theorem fromForeign_eq_foreign_iff (hn : w.Nested) (registry : Registry) (ht : w.Open v t) :
    w.fromForeign cx registry v t = .error (.foreignContext owner) ↔ w.Exposes cx owner v := by
  obtain rfl | ⟨rfl, items, hi⟩ := ht
  · rw [fromForeign, if_pos rfl, converted_eq_foreign_iff, toVariant_eq_error_iff,
      infer_eq_foreign_iff hn]
  · rw [fromForeign, if_neg (by decide), if_pos rfl, converted_eq_foreign_iff, hi,
      ← exposes_array_iff hn hi]
    exact map_eq_error_iff

theorem exists_canFromForeign (registry : Registry) (ht : w.Open v t)
    (h : Clean (w.canFromForeign cx registry v t)) : ∃ b, w.canFromForeign cx registry v t = .ok b := by
  obtain rfl | ⟨rfl, items, hi⟩ := ht
  · rw [canFromForeign, if_pos rfl] at h ⊢
    exact exists_answer fun owner hx => h owner (answer_eq_foreign_iff.2 hx)
  · rw [canFromForeign, if_neg (by decide), if_pos rfl, hi] at h ⊢
    exact exists_inferAll h

theorem exists_fromForeign (registry : Registry) (ht : w.Open v t)
    (h : Clean (w.fromForeign cx registry v t)) :
    ∃ result, w.fromForeign cx registry v t = .ok result := by
  obtain rfl | ⟨rfl, items, hi⟩ := ht
  · rw [fromForeign, if_pos rfl] at h ⊢
    exact exists_converted fun owner hx => h owner (converted_eq_foreign_iff.2 hx)
  · rw [fromForeign, if_neg (by decide), if_pos rfl] at h ⊢
    exact exists_converted fun owner hx => h owner (converted_eq_foreign_iff.2 hx)

/-- Native data decides about a class, and it is not shown to another context. -/
theorem probe_instance_foreign {id : ObjectId} {o} (ho : w.object? id = some o) (hc : o.context ≠ cx)
    (cls : ClassKey) : w.probe cx (.instance cls) (.object id) = .error (.foreignContext o.context) := by
  rw [probe, handleFor, boundHandle_foreign ho hc]
  rfl

end World

/-! ## Operations -/

namespace Engine

variable {w : World} {run : Runner} {cx : ContextId} {id : ObjectId} {o : Object}

/-- The operations of a context that fail at once on an object of another one, whatever it is. -/
structure Guarded (w : World) (run : Runner) (cx owner : ContextId) (id : ObjectId) : Prop where
  get : ∀ name, FailsFast w owner cx (getProperty run cx id name)
  set : ∀ name v, FailsFast w owner cx (setProperty run cx id name v)
  define : ∀ ds, FailsFast w owner cx (defineAll cx id ds)
  method : ∀ name args, FailsFast w owner cx (callMethod run cx id name args)
  newInstance : FailsFast w owner cx (createInstance run cx id)
  heir : FailsFast w owner cx (createWithPrototype cx (some id))
  wrap : ∀ data, FailsFast w owner cx (wrap cx id data)
  unwrap : FailsFast w owner cx (Session.unwrap cx id)
  handle : FailsFast w owner cx (handleOf cx id)
  finalizer : ∀ label, FailsFast w owner cx (Session.addFinalizer cx id label)
  settled : ∀ r, FailsFast w owner cx (onSettled run cx id r)

/-- Each operation on a foreign object fails fast. -/
theorem guarded (ho : w.object? id = some o) (hc : o.context ≠ cx) :
    Guarded w run cx o.context id := by
  have h := failsFast_checkOwned ho hc
  have hget (name : String) : FailsFast w o.context cx (getProperty run cx id name) := h.bind _
  exact
    { get := hget
      set := fun name v => h.bind _
      define := fun ds => h.bind _
      method := fun name args => (hget name).bind _
      newInstance := (hget "prototype").bind _
      heir := h.bind _
      wrap := fun data => h.bind _
      unwrap := h.bind _
      handle := h.bind _
      finalizer := fun label => h.bind _
      settled := fun r => h.bind _ }

/-- A function of another context is neither called nor used as a constructor. -/
theorem failsFast_call (ho : w.object? id = some o) (hc : o.context ≠ cx) (hf : o.isFunction)
    (receiver : ForeignValue) (args : List ForeignValue) :
    FailsFast w o.context cx (call run cx (.object id) receiver args) ∧
      FailsFast w o.context cx (construct run cx (.object id) args) := by
  obtain ⟨⟨name, code, data⟩, hfunction⟩ := Option.isSome_iff_exists.1 hf
  have hcallable : (callable cx (.object id)).run w = .ok (id, code, data) w := by
    rw [callable, run_get_bind]
    dsimp only
    rw [ho, Option.bind_some, hfunction]
    rfl
  exact ⟨.step hcallable ((failsFast_checkOwned ho hc).bind _),
    .step hcallable ((failsFast_checkOwned ho hc).bind _)⟩

/-- Calling what is no function is a type error of the caller, whoever owns it. -/
theorem run_call_of_not_function (ho : w.object? id = some o) (hf : o.isFunction = false)
    {text : String} (ht : w.describe? (.object id) = some text) (receiver : ForeignValue)
    (args : List ForeignValue) :
    (call run cx (.object id) receiver args).run w =
        (raiseTypeError cx (text ++ " is not a function") : Engine ForeignValue).run w ∧
      (construct run cx (.object id) args).run w =
        (raiseTypeError cx (text ++ " is not a function") : Engine ForeignValue).run w := by
  have hfunction : o.function? = none := Option.isSome_eq_false_iff.1 hf |> Option.isNone_iff_eq_none.1
  have hcallable : (callable cx (.object id)).run w =
      (raiseTypeError cx (text ++ " is not a function") : Engine (ObjectId × Callback × Nat)).run w := by
    rw [callable, run_get_bind]
    dsimp only
    rw [ho, Option.bind_some, hfunction]
    exact run_bind_of_ok (run_describe ht)
  have hraise (β : Type) : (raiseTypeError cx (text ++ " is not a function") : Engine β).run w =
      .error (.thrown (.object ⟨w.objects.next⟩))
        (w.adding { context := cx, kind := .error, properties :=
          [("name", .data (.string "TypeError") true false),
            ("message", .data (.string (text ++ " is not a function")) true false)] }) := rfl
  rw [hraise] at hcallable
  rw [hraise]
  exact ⟨run_bind_of_error hcallable, run_bind_of_error hcallable⟩

/-- Anybody is shown the state of a promise. -/
theorem run_promiseState_foreign (ho : w.object? id = some o) :
    ∀ state, o.kind = .promise state → (Session.promiseState cx (.object id)).run w =
      .ok (.list [.bool (state matches .pending _), w.showForeign cx (.object id)]) w := by
  intro state hk
  have hstate : (((ForeignValue.object id).asObject?.bind w.object?).bind (·.promise?)) = some state := by
    rw [ForeignValue.asObject?, Option.bind_some, ho, Option.bind_some, Object.promise?, hk]
  rw [Session.promiseState, run_get_bind, hstate]
  rfl

/-- What becomes of the conversions of an object in the hands of another context, with any registry.
A class asks for the owner at once.  A variant or a list asks for the owners of what it comes across. -/
structure Conversions (w : World) (cx : ContextId) (id : ObjectId) (o : Object) (registry : Registry) :
    Prop where
  /-- The types of classes. -/
  classes : ∀ t cls, t ≠ .variant → t ≠ .list → registry.decoder? t = some (.instance cls) →
    FailsFast w o.context cx (canFromForeign cx registry (.object id) t) ∧
      FailsFast w o.context cx (fromForeign cx registry (.object id) t)
  /-- Coming across an object of another context. -/
  exposed : ∀ t owner, w.Open (.object id) t → w.Exposes cx owner (.object id) →
    FailsFast w owner cx (canFromForeign cx registry (.object id) t) ∧
      FailsFast w owner cx (fromForeign cx registry (.object id) t)
  /-- Coming across none. -/
  unseen : ∀ t, w.Open (.object id) t → (∀ owner, ¬ w.Exposes cx owner (.object id)) →
    ∃ answer result, (canFromForeign cx registry (.object id) t).run w = .ok answer w ∧
      (fromForeign cx registry (.object id) t).run w = .ok result w
  /-- An object that is neither an array nor an array buffer is come across itself. -/
  native : (∀ items, o.kind ≠ .array items) → o.buffer? = none → w.Exposes cx o.context (.object id)
  /-- A buffer is read by anybody. -/
  buffers : ∀ b, o.buffer? = some b → (∀ owner, ¬ w.Exposes cx owner (.object id)) ∧
    (registry.decoder? .buffer = some .buffer →
      (canFromForeign cx registry (.object id) .buffer).run w = .ok true w ∧
        (fromForeign cx registry (.object id) .buffer).run w = .ok (.ok (.buffer b)) w)

theorem canFromForeign_eq_look {registry : Registry} {v : ForeignValue} {t : TypeId} :
    (canFromForeign cx registry v t).run w = (look cx (w.canFromForeign cx registry v t)).run w := rfl

theorem fromForeign_eq_look {registry : Registry} {v : ForeignValue} {t : TypeId} :
    (fromForeign cx registry v t).run w = (look cx (w.fromForeign cx registry v t)).run w := rfl

/-- So does each conversion that comes across it. -/
theorem conversions (hn : w.Nested) (ho : w.object? id = some o) (hc : o.context ≠ cx)
    (registry : Registry) : Conversions w cx id o registry where
  classes t cls hv hl hd := by
    have hprobe := World.probe_instance_foreign ho hc cls
    refine ⟨?_, ?_⟩
    · rw [FailsFast, canFromForeign_eq_look, World.canFromForeign, if_neg hv, if_neg hl, hd]
      dsimp only
      rw [hprobe]
      rfl
    · rw [FailsFast, fromForeign_eq_look, World.fromForeign, if_neg hv, if_neg hl, hd]
      dsimp only
      rw [hprobe]
      rfl
  exposed t owner ht he := by
    refine ⟨?_, ?_⟩
    · rw [FailsFast, canFromForeign_eq_look, (World.canFromForeign_eq_foreign_iff hn registry ht).2 he]
      rfl
    · rw [FailsFast, fromForeign_eq_look, (World.fromForeign_eq_foreign_iff hn registry ht).2 he]
      rfl
  unseen t ht he := by
    obtain ⟨answer, ha⟩ : ∃ answer, w.canFromForeign cx registry (.object id) t = .ok answer :=
      World.exists_canFromForeign registry ht fun owner hx =>
        he owner ((World.canFromForeign_eq_foreign_iff hn registry ht).1 hx)
    obtain ⟨result, hr⟩ : ∃ result, w.fromForeign cx registry (.object id) t = .ok result :=
      World.exists_fromForeign registry ht fun owner hx =>
        he owner ((World.fromForeign_eq_foreign_iff hn registry ht).1 hx)
    refine ⟨answer, result, ?_, ?_⟩
    · rw [canFromForeign_eq_look, ha]
      rfl
    · rw [fromForeign_eq_look, hr]
      rfl
  native ha hb := .object ho rfl hc ha hb
  buffers b hb := by
    have ha (items) : o.kind ≠ .array items := fun hk => by
      rw [Object.buffer?, hk] at hb
      cases hb
    refine ⟨fun owner he => ?_, fun hd => ?_⟩
    · have hinfer := (World.infer_eq_foreign_iff hn).2 he
      rw [World.infer_object ho ha, hb] at hinfer
      cases hinfer
    · have hbuffer : w.bufferOf (.object id) = some b := by
        rw [World.bufferOf, ForeignValue.asObject?, Option.bind_some, ho, Option.bind_some, hb]
      refine ⟨?_, ?_⟩
      · rw [canFromForeign_eq_look, World.canFromForeign, if_neg (by decide), if_neg (by decide), hd]
        dsimp only
        rw [World.probe, hbuffer]
        rfl
      · rw [fromForeign_eq_look, World.fromForeign, if_neg (by decide), if_neg (by decide), hd]
        dsimp only
        rw [World.probe, World.decode, hbuffer]
        rfl

end Engine

open Engine in
/-- **An object in the hands of another context**, in any state that a run leads to.  Reading, assigning
and defining properties, methods, making instances, native data, finalizers and reactions fail at once, and
so does a call of a function; nothing changes.  What is no function is first of all not a function, a
promise shows its state, and conversions fail where they come across an object of another context. -/
theorem Reachable.foreign_object {w : World} (h : Reachable w) (run : Runner) {cx : ContextId}
    {id : ObjectId} {o : Object} (ho : w.object? id = some o) (hc : o.context ≠ cx) :
    Guarded w run cx o.context id ∧
    (∀ receiver args, (o.isFunction = true →
        FailsFast w o.context cx (call run cx (.object id) receiver args) ∧
          FailsFast w o.context cx (construct run cx (.object id) args)) ∧
      (o.isFunction = false → ∀ text, w.describe? (.object id) = some text →
        (call run cx (.object id) receiver args).run w =
            (raiseTypeError cx (text ++ " is not a function") : Engine ForeignValue).run w ∧
          (construct run cx (.object id) args).run w =
            (raiseTypeError cx (text ++ " is not a function") : Engine ForeignValue).run w)) ∧
    (∀ state, o.kind = .promise state → (Session.promiseState cx (.object id)).run w =
      .ok (.list [.bool (state matches .pending _), w.showForeign cx (.object id)]) w) ∧
    ∀ registry, Conversions w cx id o registry :=
  ⟨guarded ho hc,
    fun receiver args => ⟨fun hf => failsFast_call ho hc hf receiver args,
      fun hf _ ht => run_call_of_not_function ho hf ht receiver args⟩,
    run_promiseState_foreign ho,
    conversions h.nested ho hc⟩

namespace Ownership

/-- Two contexts, the first of which has made an object. -/
def neighbours (kind : ObjectKind) : World :=
  Probing.add (World.hosted.openContext ⟨0⟩) kind

theorem reachable_neighbours {kind : ObjectKind} (hk : ∀ items, kind ≠ .array items) :
    Reachable (neighbours kind) :=
  Probing.reachable_add (reachable_hosted.moves (.single (.openContext ⟨0⟩)))
    fun items h => absurd h (hk items)

end Ownership

/-- The second context may not react to a promise of the first; it sees that the promise is pending. -/
theorem foreign_object_promise :
    Engine.FailsFast (Ownership.neighbours (.promise (.pending []))) ⟨0⟩ ⟨1⟩
        (Engine.onSettled (Session.runner 1) ⟨1⟩ ⟨0⟩ ⟨"seen", []⟩) ∧
      (Session.promiseState ⟨1⟩ (.object ⟨0⟩)).run (Ownership.neighbours (.promise (.pending []))) =
        .ok (.list [.bool true, (Ownership.neighbours (.promise (.pending []))).showForeign ⟨1⟩
          (.object ⟨0⟩)]) (Ownership.neighbours (.promise (.pending []))) := by
  have hw : Reachable (Ownership.neighbours (.promise (.pending []))) :=
    Ownership.reachable_neighbours nofun
  have ho : (Ownership.neighbours (.promise (.pending []))).object? ⟨0⟩ =
      some { context := ⟨0⟩, kind := .promise (.pending []) } := rfl
  have hc : (⟨0⟩ : ContextId) ≠ ⟨1⟩ := by decide
  obtain ⟨hguarded, -, hpromise, -⟩ := hw.foreign_object (Session.runner 1) ho hc
  exact ⟨hguarded.settled _, hpromise _ rfl⟩

end Isthmus
