import Isthmus.Proofs.Run.Effects
import Mathlib.Data.List.Count

/-!
# Proofs/Values/Infer — native counterparts of foreign values

`World.infer` looks only as deep into arrays as there are objects.  In a world that a run leads to, arrays
are made of older objects (`Reachable.nested`), so that is deep enough: `World.infer_array` is the
recursion without the bound, and looking deeper gives the same (`World.inferWithin_eq_infer`).

A counterpart is tidy: what a list holds are variants, and no variant holds a variant.
-/

namespace Isthmus

/-! ## Arrays are made of older objects -/

namespace World

/-- The items of an array are older than the array. -/
def Nested (w : World) : Prop :=
  ∀ id o items, w.object? id = some o → o.kind = .array items →
    ∀ p, .object p ∈ items → p.index < id.index

/-- Arrays stay made of older objects, whatever becomes of the objects. -/
theorem Nested.reshapes {w w' : World} (hw : w.Nested) (h : Reshapes w w') : w'.Nested := by
  intro id o' items ho' hk p hp
  cases h with
  | kept h =>
    obtain ⟨o, ho⟩ | hle := h.old_or_new id.index o' ho'
    · obtain ⟨o₁, ho₁, -, hkind⟩ := h.kept id.index o ho
      cases Option.some.inj (ho'.symm.trans ho₁)
      obtain hkind | ⟨r, r', -, hkind⟩ := hkind
      · exact hw id o items ho (hkind.symm.trans hk) p hp
      · cases hk.symm.trans hkind
    · exact h.nested id.index o' items ho' hle hk p hp
  | destroyed q hr h =>
    rw [object?, h, Store.get?_erase] at ho'
    split at ho'
    · cases ho'
    · exact hw id o' items ho' hk p hp
  | settled hd hu hpend hi hs h =>
    exact fixed h ho' hk hp
  | settledOwn state hf hpend h =>
    exact fixed h ho' hk hp
where
  fixed {w' : World} {q state} (h : w' = w.fix q state) {id o' items p} (ho' : w'.object? id = some o')
      (hk : o'.kind = .array items) (hp : .object p ∈ items) : p.index < id.index := by
    rw [h, object?, fix, Store.get?_modify] at ho'
    split at ho'
    · obtain ⟨o, -, rfl⟩ := Option.map_eq_some_iff.1 ho'
      cases hk
    · exact hw id o' items ho' hk p hp

end World

/-- **Arrays are made of older objects.** -/
theorem Reachable.nested {w : World} (h : Reachable w) : w.Nested :=
  h.rec' (fun plans id o items ho => by cases ho) fun _ _ _ hw hm => hw.reshapes hm.objects

/-! ## How deep one has to look -/

/-- Of two counts the one that misses an element is smaller. -/
theorem countP_lt_countP {α : Type} {p q : α → Bool} {l : List α} (h : ∀ a ∈ l, p a → q a) {a : α}
    (ha : a ∈ l) (hq : q a) (hp : ¬ p a) : l.countP p < l.countP q := by
  induction l with
  | nil => exact absurd ha List.not_mem_nil
  | cons b l ih =>
    have hl : ∀ a ∈ l, p a → q a := fun a ha => h a (List.mem_cons_of_mem b ha)
    rw [List.countP_cons, List.countP_cons]
    obtain rfl | ha := List.mem_cons.1 ha
    · have := List.countP_mono_left hl
      rw [if_pos hq, if_neg hp]
      omega
    · have := ih hl ha
      have hb := h b (List.mem_cons_self ..)
      by_cases hpb : p b
      · rw [if_pos hpb, if_pos (hb hpb)]
        omega
      · rw [if_neg hpb]
        omega

/-- Actions that agree on the items agree on the list. -/
theorem mapM_congr {ε α β : Type} {f g : α → Except ε β} {l : List α} (h : ∀ a ∈ l, f a = g a) :
    l.mapM f = l.mapM g := by
  induction l with
  | nil => rfl
  | cons a l ih =>
    rw [List.mapM_cons, List.mapM_cons, h a (List.mem_cons_self ..),
      ih fun b hb => h b (List.mem_cons_of_mem a hb)]

namespace World

variable {w : World} {cx : ContextId}

/-- How many objects are older than the given one. -/
def age (w : World) (id : ObjectId) : Nat :=
  w.objects.entries.countP (·.1 < id.index)

/-- The items of an array are older than the array. -/
theorem age_lt_age {id p : ObjectId} {o} (hp : w.object? p = some o) (h : p.index < id.index) :
    w.age p < w.age id := by
  have hmem : (p.index, o) ∈ w.objects.entries := Store.get?_eq_some_iff.1 hp
  refine countP_lt_countP (fun e _ he => ?_) hmem (decide_eq_true h) (by simp)
  exact decide_eq_true (Nat.lt_trans (of_decide_eq_true he) h)

/-- An age is smaller than the number of objects. -/
theorem age_lt_size {id : ObjectId} {o} (ho : w.object? id = some o) : w.age id < w.objects.size := by
  have hmem : (id.index, o) ∈ w.objects.entries := Store.get?_eq_some_iff.1 ho
  exact List.countP_lt_length_iff.2 ⟨_, hmem, decide_eq_false (Nat.lt_irrefl _)⟩

/-- An object that is gone has no native value. -/
theorem inferWithin_gone {id : ObjectId} (ho : w.object? id = none) (depth : Nat) :
    w.inferWithin cx depth (.object id) = .error .notConvertible := by
  cases depth with
  | zero => rfl
  | succ depth => rw [inferWithin, ho]

/-- An array is inferred from its items. -/
theorem inferWithin_array {id : ObjectId} {o items} (ho : w.object? id = some o)
    (hk : o.kind = .array items) (depth : Nat) : w.inferWithin cx (depth + 1) (.object id) = do
      return .list (← items.mapM fun item => do
        return (← w.inferWithin cx depth item).toVariant) := by
  rw [inferWithin, ho]
  simp only [hk]

/-- Any other object is inferred from its buffer, or from the handle that is bound to it. -/
theorem inferWithin_object {id : ObjectId} {o} (ho : w.object? id = some o)
    (ha : ∀ items, o.kind ≠ .array items) (depth : Nat) : w.inferWithin cx (depth + 1) (.object id) =
      match o.buffer? with
      | some b => .ok (.buffer b)
      | none => do return Engine.nativeValue (← w.boundHandle cx id) := by
  rw [inferWithin, ho, Object.buffer?]
  cases hk : o.kind with
  | array items => exact absurd hk (ha items)
  | _ => simp only [hk]

/-- Past the age of an object, looking deeper into it makes no difference. -/
theorem inferWithin_stable (hn : w.Nested) {bound : Nat} {v : ForeignValue}
    (hv : ∀ id o, v = .object id → w.object? id = some o → w.age id < bound) {depth depth' : Nat}
    (h : bound ≤ depth) (h' : bound ≤ depth') :
    w.inferWithin cx depth v = w.inferWithin cx depth' v := by
  induction bound generalizing v depth depth' with
  | zero =>
    cases v with
    | object id =>
      cases ho : w.object? id with
      | none => rw [inferWithin_gone ho, inferWithin_gone ho]
      | some o => exact absurd (hv id o rfl ho) (Nat.not_lt_zero _)
    | _ => cases depth <;> cases depth' <;> rfl
  | succ bound ih =>
    obtain ⟨depth, rfl⟩ : ∃ d, depth = d + 1 := ⟨depth - 1, by omega⟩
    obtain ⟨depth', rfl⟩ : ∃ d, depth' = d + 1 := ⟨depth' - 1, by omega⟩
    cases v with
    | object id =>
      cases ho : w.object? id with
      | none => rw [inferWithin_gone ho, inferWithin_gone ho]
      | some o =>
        by_cases ha : ∃ items, o.kind = .array items
        · obtain ⟨items, hk⟩ := ha
          rw [inferWithin_array ho hk, inferWithin_array ho hk]
          congr 1
          refine mapM_congr fun item hitem => ?_
          have hitem' : ∀ p o', item = .object p → w.object? p = some o' → w.age p < bound := by
            rintro p o' rfl ho'
            have hlt := age_lt_age ho' (hn id o items ho hk p hitem)
            have := hv id o rfl ho
            omega
          rw [ih hitem' (Nat.le_of_succ_le_succ h) (Nat.le_of_succ_le_succ h')]
        · rw [not_exists] at ha
          rw [inferWithin_object ho ha, inferWithin_object ho ha]
    | _ => rfl

/-- **Looking deeper than there are objects** makes no difference. -/
theorem inferWithin_eq_infer (hn : w.Nested) {depth : Nat} (h : w.objects.size < depth)
    (v : ForeignValue) : w.inferWithin cx depth v = w.infer cx v := by
  refine inferWithin_stable hn (fun id o _ ho => ?_) h (Nat.le_refl _)
  exact Nat.lt_succ_of_lt (age_lt_size ho)

/-- **The counterpart of an array** is made of the counterparts of its items. -/
theorem infer_array (hn : w.Nested) {id : ObjectId} {o items} (ho : w.object? id = some o)
    (hk : o.kind = .array items) : w.infer cx (.object id) = do
      return .list (← items.mapM fun item => do return (← w.infer cx item).toVariant) := by
  rw [infer, inferWithin_array ho hk]
  congr 1
  refine mapM_congr fun item hitem => ?_
  have hitem' : ∀ p o', item = .object p → w.object? p = some o' → w.age p < w.age id := by
    rintro p o' rfl ho'
    exact age_lt_age ho' (hn id o items ho hk p hitem)
  have hsize := Nat.le_of_lt (age_lt_size ho)
  rw [inferWithin_stable hn hitem' hsize (Nat.le_succ_of_le hsize), infer]

/-- The same without a depth. -/
theorem infer_object {id : ObjectId} {o} (ho : w.object? id = some o)
    (ha : ∀ items, o.kind ≠ .array items) : w.infer cx (.object id) =
      match o.buffer? with
      | some b => .ok (.buffer b)
      | none => do return Engine.nativeValue (← w.boundHandle cx id) :=
  inferWithin_object ho ha _

theorem infer_gone {id : ObjectId} (ho : w.object? id = none) :
    w.infer cx (.object id) = .error .notConvertible :=
  inferWithin_gone ho _

/-! ## Values of one context -/

/-- Everything that the value is made of belongs to the context. -/
inductive Within (w : World) (cx : ContextId) : ForeignValue → Prop where
  | plain {v} (h : v.asObject? = none) : Within w cx v
  | object {id} (hc : ∀ o, w.object? id = some o → o.context = cx)
      (hi : ∀ o items, w.object? id = some o → o.kind = .array items →
        ∀ v ∈ items, Within w cx v) : Within w cx (.object id)

/-- An object within a context belongs to it. -/
theorem Within.context {id : ObjectId} (h : w.Within cx (.object id)) {o}
    (ho : w.object? id = some o) : o.context = cx := by
  cases h with
  | plain h => cases h
  | object hc _ => exact hc o ho

/-- The items of an array within a context are within it. -/
theorem Within.items {id : ObjectId} (h : w.Within cx (.object id)) {o items}
    (ho : w.object? id = some o) (hk : o.kind = .array items) : ∀ v ∈ items, w.Within cx v := by
  cases h with
  | plain h => cases h
  | object _ hi => exact hi o items ho hk

/-- Where there is only one context, every value is of that context. -/
theorem Nested.within (hn : w.Nested) (hc : ∀ id o, w.object? id = some o → o.context = cx)
    (v : ForeignValue) : w.Within cx v := by
  have hobject (n : Nat) : ∀ id : ObjectId, id.index = n → w.Within cx (.object id) := by
    induction n using Nat.strongRecOn with
    | ind n ih =>
      rintro id rfl
      refine .object (hc id) fun o items ho hk v hv => ?_
      cases v with
      | object p => exact ih p.index (hn id o items ho hk p hv) p rfl
      | _ => exact .plain rfl
  cases v with
  | object id => exact hobject id.index id rfl
  | _ => exact .plain rfl

/-- The answer does not say that contexts met. -/
def Clean {α : Type} (x : Except Refusal α) : Prop :=
  ∀ owner, x ≠ .error (.foreignContext owner)

/-- What is clean succeeds, or is not convertible. -/
theorem Clean.cases {α : Type} {x : Except Refusal α} (h : Clean x) :
    (∃ a, x = .ok a) ∨ x = .error .notConvertible := by
  cases x with
  | ok a => exact .inl ⟨a, rfl⟩
  | error e =>
    cases e with
    | notConvertible => exact .inr rfl
    | foreignContext owner => exact absurd rfl (h owner)

/-- Clean inferences follow each other. -/
theorem Clean.bind {α β : Type} {x : Except Refusal α} {f : α → Except Refusal β} (hx : Clean x)
    (hf : ∀ a, Clean (f a)) : Clean (x >>= f) := by
  obtain ⟨a, rfl⟩ | rfl := hx.cases
  · exact hf a
  · intro owner h
    cases h

theorem Clean.ok {α : Type} (a : α) : Clean (.ok a : Except Refusal α) := by
  intro owner h
  cases h

theorem Clean.refused {α : Type} : Clean (.error .notConvertible : Except Refusal α) := by
  intro owner h
  cases h

/-- Clean inferences of all items. -/
theorem Clean.mapM {α β : Type} {f : α → Except Refusal β} {l : List α} (h : ∀ a ∈ l, Clean (f a)) :
    Clean (l.mapM f) := by
  induction l with
  | nil => exact .ok []
  | cons a l ih =>
    rw [List.mapM_cons]
    refine .bind (h a (List.mem_cons_self ..)) fun b => ?_
    exact .bind (ih fun a ha => h a (List.mem_cons_of_mem _ ha)) fun bs => .ok _

/-- The handle of an object of the context is clean to ask for. -/
theorem clean_boundHandle {id : ObjectId} (h : ∀ o, w.object? id = some o → o.context = cx) :
    Clean (w.boundHandle cx id) := by
  rw [boundHandle]
  cases ho : w.object? id with
  | none => exact .refused
  | some o =>
    simp only [h o ho]
    rw [if_neg (by simp)]
    split
    · split
      · exact .ok _
      · exact .refused
    · exact .refused

/-- A value of one context either has a counterpart or has none. -/
theorem clean_infer (hn : w.Nested) {v : ForeignValue} (hv : w.Within cx v) : Clean (w.infer cx v) := by
  induction hv with
  | @plain v h =>
    cases v with
    | object id => cases h
    | _ => exact .ok _
  | @object id hc hi ih =>
    cases ho : w.object? id with
    | none =>
      rw [infer_gone ho]
      exact .refused
    | some o =>
      by_cases ha : ∃ items, o.kind = .array items
      · obtain ⟨items, hk⟩ := ha
        rw [infer_array hn ho hk]
        refine .bind (.mapM fun item hitem => ?_) fun _ => .ok _
        exact .bind (ih o items ho hk item hitem) fun _ => .ok _
      · rw [infer_object ho (not_exists.1 ha)]
        cases o.buffer? with
        | some b => exact .ok _
        | none => exact .bind (clean_boundHandle hc) fun _ => .ok _

end World

/-! ## Tidy values -/

namespace NativeValue

/-- Lists hold variants, and no variant holds a variant. -/
inductive Tidy : NativeValue → Prop where
  | list {items} (hv : ∀ v ∈ items, ∃ content, v = .variant content) (hi : ∀ v ∈ items, Tidy v) :
      Tidy (.list items)
  | variant {content} (hn : ∀ inner, content ≠ .variant inner) (hc : Tidy content) :
      Tidy (.variant content)
  | plain {v} (hl : ∀ items, v ≠ .list items) (hv : ∀ content, v ≠ .variant content) : Tidy v

/-- A value becomes a variant, unless it is one. -/
theorem toVariant_of_ne {v : NativeValue} (h : v.typeId ≠ .variant) : v.toVariant = .variant v := by
  rw [toVariant, if_neg h]

/-- A tidy value in a variant is tidy. -/
theorem Tidy.toVariant {v : NativeValue} (h : v.Tidy) (hv : v.typeId ≠ .variant) :
    v.toVariant.Tidy := by
  rw [toVariant_of_ne hv]
  refine .variant (fun inner he => ?_) h
  rw [he] at hv
  exact hv rfl

end NativeValue

/-- The id of a class is none of the built-in ones. -/
theorem ClassKey.isBuiltin_typeId (key : ClassKey) : key.typeId.isBuiltin = false := by
  cases key with
  | puppet index => revert index; decide
  | _ => decide

/-- A map succeeds where its argument does. -/
theorem ok_of_map {ε α β : Type} {f : α → β} {x : Except ε α} {b : β}
    (h : (x >>= fun a => pure (f a)) = .ok b) : ∃ a, x = .ok a ∧ b = f a := by
  cases x with
  | error e => cases h
  | ok a =>
    cases h
    exact ⟨a, rfl, rfl⟩

/-- Each result comes from an item. -/
theorem mapM_ok {ε α β : Type} {f : α → Except ε β} {l : List α} {bs : List β}
    (h : l.mapM f = .ok bs) : ∀ b ∈ bs, ∃ a ∈ l, f a = .ok b := by
  induction l generalizing bs with
  | nil =>
    cases h
    intro b hb
    cases hb
  | cons a l ih =>
    rw [List.mapM_cons] at h
    cases ha : f a with
    | error e =>
      rw [ha] at h
      cases h
    | ok b =>
      rw [ha] at h
      cases hl : l.mapM f with
      | error e =>
        rw [hl] at h
        cases h
      | ok rest =>
        rw [hl] at h
        cases h
        intro c hc
        obtain rfl | hc := List.mem_cons.1 hc
        · exact ⟨a, List.mem_cons_self .., ha⟩
        · obtain ⟨a', ha', hf⟩ := ih hl c hc
          exact ⟨a', List.mem_cons_of_mem _ ha', hf⟩

/-- No class has the number of a built-in type. -/
theorem ClassKey.typeId_ne {key : ClassKey} {t : TypeId} (ht : t.isBuiltin) : key.typeId ≠ t := by
  rintro rfl
  rw [key.isBuiltin_typeId] at ht
  cases ht

namespace World

variable {w : World} {cx : ContextId}

/-- What a value has for a counterpart is tidy, and no variant. -/
structure Inferred (v : NativeValue) : Prop where
  tidy : v.Tidy
  typeId_ne : v.typeId ≠ .variant

/-- What is inferred is tidy as a variant. -/
theorem Inferred.toVariant {v : NativeValue} (h : Inferred v) :
    v.toVariant.Tidy ∧ ∃ content, v.toVariant = .variant content :=
  ⟨h.tidy.toVariant h.typeId_ne, v, NativeValue.toVariant_of_ne h.typeId_ne⟩

/-- A list of inferred items. -/
theorem Inferred.list {items : List NativeValue}
    (h : ∀ v ∈ items, ∃ x, Inferred x ∧ v = x.toVariant) : Inferred (.list items) := by
  refine ⟨.list (fun v hv => ?_) fun v hv => ?_, by simp [NativeValue.typeId]⟩
  · obtain ⟨x, hx, rfl⟩ := h v hv
    exact hx.toVariant.2
  · obtain ⟨x, hx, rfl⟩ := h v hv
    exact hx.toVariant.1

/-- The value of a handle is one that is inferred. -/
theorem Inferred.nativeValue (h : Handle) : Inferred (Engine.nativeValue h) := by
  refine ⟨.plain (by simp [Engine.nativeValue]) (by simp [Engine.nativeValue]), ?_⟩
  exact ClassKey.typeId_ne rfl

/-- So is one of a number. -/
theorem Inferred.ofNumber (n : Float) : Inferred (ofNumber n) := by
  rw [World.ofNumber]
  split
  · exact ⟨.plain (by simp) (by simp), by simp [NativeValue.typeId]⟩
  · exact ⟨.plain (by simp) (by simp), by simp [NativeValue.typeId]⟩

/-- **What is inferred is tidy**, however deep one looks. -/
theorem inferred_within {depth : Nat} {v : ForeignValue} {n : NativeValue}
    (h : w.inferWithin cx depth v = .ok n) : Inferred n := by
  induction depth generalizing v n with
  | zero =>
    cases v with
    | object id => cases h
    | number x =>
      cases h
      exact .ofNumber x
    | _ =>
      cases h
      exact ⟨.plain (by simp) (by simp), by simp [NativeValue.typeId]⟩
  | succ depth ih =>
    cases v with
    | object id =>
      cases ho : w.object? id with
      | none => cases (inferWithin_gone ho _).symm.trans h
      | some o =>
        by_cases ha : ∃ items, o.kind = .array items
        · obtain ⟨items, hk⟩ := ha
          rw [inferWithin_array ho hk] at h
          obtain ⟨values, hm, rfl⟩ := ok_of_map h
          refine .list fun v hv => ?_
          obtain ⟨item, -, hf⟩ := mapM_ok hm v hv
          obtain ⟨x, hi, rfl⟩ := ok_of_map hf
          exact ⟨x, ih hi, rfl⟩
        · rw [inferWithin_object ho (not_exists.1 ha)] at h
          cases hb : o.buffer? with
          | some b =>
            rw [hb] at h
            cases h
            exact ⟨.plain (by simp) (by simp), by simp [NativeValue.typeId]⟩
          | none =>
            rw [hb] at h
            obtain ⟨handle, -, rfl⟩ := ok_of_map h
            exact .nativeValue handle
    | number x =>
      cases h
      exact .ofNumber x
    | _ =>
      cases h
      exact ⟨.plain (by simp) (by simp), by simp [NativeValue.typeId]⟩

/-- **A counterpart is tidy.** -/
theorem inferred {v : ForeignValue} {n : NativeValue} (h : w.infer cx v = .ok n) : Inferred n :=
  inferred_within h

end World

end Isthmus
