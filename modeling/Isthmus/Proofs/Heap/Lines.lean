import Isthmus.Proofs.Heap.Steps
import Isthmus.World.Lookup

/-!
# Proofs/Heap/Lines — prototypes, and the prototypes of those

Heap steps add an object only with a prototype that is there, so prototypes are older than the objects that
have them (`World.Rooted`).  Following prototypes therefore comes to an end and never comes back:
`Built.exists_line`.  The search for a definition goes along that line and takes the first
(`Rooted.lookup_eq`).
-/

namespace Isthmus

namespace World

variable {w w' : World} {id : ObjectId} {o : Object}

/-! ## What heap steps keep -/

/-- Prototypes are there and are older than the objects that have them, and no two properties of an object
have the same name. -/
structure Rooted (w : World) : Prop where
  older : ∀ {id o p}, w.object? id = some o → o.prototype = some p →
    p.index < id.index ∧ ∃ q, w.object? p = some q
  names : ∀ {id o}, w.object? id = some o → (o.properties.map (·.1)).Nodup

end World

theorem Object.names_put (o : Object) (name : String) (p : Property) :
    (o.put name p).properties.map (·.1) =
      if o.hasOwn name then o.properties.map (·.1) else o.properties.map (·.1) ++ [name] := by
  rw [Object.put]
  split
  · dsimp only
    rw [List.map_map]
    refine List.map_congr_left fun e _ => ?_
    rw [Function.comp_apply]
    split
    · next he => exact he.symm
    · rfl
  · dsimp only
    rw [List.map_append, List.map_singleton]

theorem Object.hasOwn_iff {o : Object} {name : String} :
    o.hasOwn name = true ↔ name ∈ o.properties.map (·.1) := by
  simp [Object.hasOwn]

theorem Object.nodup_names_put {o : Object} (h : (o.properties.map (·.1)).Nodup) (name : String)
    (p : Property) : ((o.put name p).properties.map (·.1)).Nodup := by
  rw [Object.names_put]
  split
  · exact h
  · next hn =>
    rw [Object.hasOwn_iff] at hn
    rw [← List.concat_eq_append]
    exact h.concat hn

namespace World

variable {w w' : World} {id : ObjectId} {o : Object}

theorem object?_of_objects (h : w'.objects = w.objects) (id : ObjectId) : w'.object? id = w.object? id := by
  rw [object?, object?, h]

/-- Changing an object in something else than its prototype. -/
theorem Rooted.modify (hw : w.Rooted) (id : ObjectId) {f : Object → Object}
    (hp : ∀ o, (f o).prototype = o.prototype)
    (hn : ∀ o : Object, (o.properties.map (·.1)).Nodup → ((f o).properties.map (·.1)).Nodup) :
    Rooted { w with objects := w.objects.modify id.index f } := by
  -- What is there afterwards was there before, with the same prototype.
  have hold {i o'} (ho : { w with objects := w.objects.modify id.index f }.object? i = some o') :
      ∃ o, w.object? i = some o ∧ (o' = o ∨ o' = f o) := by
    rw [object?, Store.get?_modify] at ho
    split at ho
    · obtain ⟨o, hold, rfl⟩ := Option.map_eq_some_iff.1 ho
      exact ⟨o, hold, .inr rfl⟩
    · exact ⟨o', ho, .inl rfl⟩
  refine ⟨fun {i o' p} ho hproto => ?_, fun {i o'} ho => ?_⟩
  · obtain ⟨o, ho', heq⟩ := hold ho
    have hsame : o.prototype = some p := by
      obtain rfl | rfl := heq
      · exact hproto
      · exact (hp o).symm.trans hproto
    obtain ⟨hlt, q, hq⟩ := hw.older ho' hsame
    refine ⟨hlt, ?_⟩
    rw [← Option.isSome_iff_exists, object?, Store.isSome_get?_modify, Option.isSome_iff_exists]
    exact ⟨q, hq⟩
  · obtain ⟨o, ho', rfl | rfl⟩ := hold ho
    · exact hw.names ho'
    · exact hn o (hw.names ho')

/-- Adding an object whose prototype is there. -/
theorem Rooted.insert (hw : w.Rooted) {o : Object}
    (hp : ∀ p, o.prototype = some p → ∃ q, w.object? p = some q)
    (hn : (o.properties.map (·.1)).Nodup) : Rooted { w with objects := w.objects.insert o } := by
  have hkeeps {i q} (hi : w.object? i = some q) :
      { w with objects := w.objects.insert o }.object? i = some q := by
    rw [object?, Store.get?_insert, if_neg (Nat.ne_of_lt (object?_lt hi))]
    exact hi
  refine ⟨fun {i o' p} ho hproto => ?_, fun {i o'} ho => ?_⟩
  · rw [object?, Store.get?_insert] at ho
    split at ho
    · next hi =>
      cases ho
      obtain ⟨q, hq⟩ := hp p hproto
      exact ⟨hi ▸ object?_lt hq, q, hkeeps hq⟩
    · obtain ⟨hlt, q, hq⟩ := hw.older ho hproto
      exact ⟨hlt, q, hkeeps hq⟩
  · rw [object?, Store.get?_insert] at ho
    split at ho
    · cases ho
      exact hn
    · exact hw.names ho

/-- A prototype has an owner, so it does not go before the objects that have it. -/
theorem Rooted.destroy (hw : w.Rooted) {r : Ref} (hr : r ∉ w.references) : (w.destroy r).1.Rooted := by
  have hthin := Thins.destroy w r
  refine ⟨fun {i o p} ho hproto => ?_, fun ho => hw.names (hthin.objects _ _ ho)⟩
  have ho := hthin.objects _ _ ho
  obtain ⟨hlt, q, hq⟩ := hw.older ho hproto
  have hne : Ref.object p ≠ r := fun h => hr (h ▸ mem_references_of_prototype ho hproto)
  have hc : (w.destroy r).1.contains (.object p) := by
    rw [contains_destroy, decide_eq_true hne, Bool.and_true]
    exact Store.contains_of_get? hq
  rw [contains, Store.contains_eq_isSome] at hc
  exact ⟨hlt, Option.isSome_iff_exists.1 hc⟩

theorem Rooted.step (hw : w.Rooted) (h : HeapStep w w') : w'.Rooted := by
  cases h with
  | aside h =>
    have hsame := object?_of_objects h
    exact ⟨fun ho hp => by simpa only [hsame] using hw.older (hsame _ ▸ ho) hp,
      fun ho => hw.names (hsame _ ▸ ho)⟩
  | create hp hn => exact hw.insert hp hn
  | put id name p => exact hw.modify id (fun _ => rfl) fun o h => Object.nodup_names_put h name p
  | change id hf => exact hw.modify id (fun o => (hf o).1) fun o h => by rwa [(hf o).2]
  | destroy hr => exact hw.destroy hr

/-- **Prototypes are older.** -/
theorem Built.rooted (h : w.Built) : w.Rooted :=
  h.rec' (fun _ => ⟨nofun, nofun⟩) fun _ _ => Rooted.step

/-! ## Lines -/

/-- An object, its prototype, the prototype of that, and so on to one that has none. -/
inductive Line (w : World) : ObjectId → List ObjectId → Prop where
  | last {id : ObjectId} {o : Object} (ho : w.object? id = some o) (hp : o.prototype = none) : Line w id [id]
  | cons {id p : ObjectId} {o : Object} {ids : List ObjectId} (ho : w.object? id = some o)
      (hp : o.prototype = some p) (h : Line w p ids) : Line w id (id :: ids)

theorem Line.head {ids : List ObjectId} (h : w.Line id ids) : ∃ rest, ids = id :: rest := by
  cases h with
  | last => exact ⟨[], rfl⟩
  | cons => exact ⟨_, rfl⟩

theorem Line.unique {ids ids' : List ObjectId} (h : w.Line id ids) (h' : w.Line id ids') : ids = ids' := by
  induction h generalizing ids' with
  | last ho hp =>
    cases h' with
    | last => rfl
    | cons ho' hp' =>
      cases ho.symm.trans ho'
      cases hp.symm.trans hp'
  | cons ho hp _ ih =>
    cases h' with
    | last ho' hp' =>
      cases ho.symm.trans ho'
      cases hp.symm.trans hp'
    | cons ho' hp' h' =>
      cases ho.symm.trans ho'
      cases hp.symm.trans hp'
      rw [ih h']

/-- The objects of a line get older and older. -/
theorem Rooted.descends (hw : w.Rooted) {ids : List ObjectId} (h : w.Line id ids) :
    ids.Pairwise (·.index > ·.index) := by
  induction h with
  | last => exact List.pairwise_singleton _ _
  | @cons id o p ids ho hp h ih =>
    have hlt := (hw.older ho hp).1
    obtain ⟨rest, rfl⟩ := h.head
    refine List.pairwise_cons.2 ⟨fun i hi => ?_, ih⟩
    obtain rfl | hi := List.mem_cons.1 hi
    · exact hlt
    · exact Nat.lt_trans ((List.pairwise_cons.1 ih).1 i hi) hlt

theorem Rooted.exists_line (hw : w.Rooted) (ho : w.object? id = some o) : ∃ ids, w.Line id ids := by
  induction hn : id.index using Nat.strongRecOn generalizing id o with
  | ind n ih =>
    subst hn
    cases hp : o.prototype with
    | none => exact ⟨_, .last ho hp⟩
    | some p =>
      obtain ⟨hlt, q, hq⟩ := hw.older ho hp
      obtain ⟨ids, h⟩ := ih p.index hlt hq rfl
      exact ⟨_, .cons ho hp h⟩

/-- **Following prototypes comes to an end**, and never comes back to an object. -/
theorem Built.exists_line (h : w.Built) (ho : w.object? id = some o) :
    ∃ ids, w.Line id ids ∧ ids.Nodup := by
  obtain ⟨ids, hline⟩ := h.rooted.exists_line ho
  refine ⟨ids, hline, (h.rooted.descends hline).imp fun hgt => ?_⟩
  rintro rfl
  exact Nat.lt_irrefl _ hgt

/-! ## The nearest definition -/

/-- An object's own definition of a name. -/
def own? (w : World) (id : ObjectId) (name : String) : Option Property :=
  (w.object? id).bind (·.own? name)

/-- The first definition of a name along a line that begins at an object, and whether it is the object's
own. -/
def nearest? (w : World) (id : ObjectId) (ids : List ObjectId) (name : String) : Option (Property × Bool) :=
  match w.own? id name with
  | some p => some (p, true)
  | none => (ids.findSome? (w.own? · name)).map (·, false)

/-- **The search finds the definition nearest to the object.** -/
theorem Rooted.lookup_eq (hw : w.Rooted) {ids : List ObjectId} (h : w.Line id ids) (name : String) :
    w.lookup id name = w.nearest? id ids name := by
  induction h with
  | @last id o ho hp =>
    have hown : w.own? id name = o.own? name := by rw [own?, ho, Option.bind_some]
    rw [lookup, nearest?, List.findSome?_singleton, hown, ho]
    dsimp only
    cases o.own? name with
    | some p => rfl
    | none =>
      rw [hp]
      rfl
  | @cons id p o ids ho hp h ih =>
    have hown : w.own? id name = o.own? name := by rw [own?, ho, Option.bind_some]
    obtain ⟨rest, rfl⟩ := h.head
    rw [lookup, nearest?, List.findSome?_cons, hown, ho]
    dsimp only
    cases o.own? name with
    | some q => rfl
    | none =>
      rw [hp]
      dsimp only
      rw [if_pos (hw.older ho hp).1, ih, nearest?, List.findSome?_cons]
      cases w.own? p name with
      | some q => rfl
      | none => cases rest.findSome? (w.own? · name) <;> rfl

end World

end Isthmus
