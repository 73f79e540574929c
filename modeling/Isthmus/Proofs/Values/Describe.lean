import Isthmus.World.Describe
import Mathlib.Data.List.Nodup
import Mathlib.Data.List.Perm.Subperm

/-!
# Proofs/Values/Describe — which values have a text

`World.describe?` looks only as deep as there are objects.  `World.describe?_eq_some_iff`: that is deep
enough, so a value is without a text only if no depth suffices: an error holds itself, or something is
gone.

An object that needs exactly one depth more than another is another object, so no object needs more depth
than there are objects.
-/

namespace Isthmus

namespace World

variable {w : World}

/-- The values that the text of an object is made of. -/
def textParts (o : Object) : List ForeignValue :=
  match o.kind with
  | .error => [errorField o "name", errorField o "message"]
  | .array items => items
  | _ => []

/-! ## Lists of texts -/

theorem isSome_mapM {α β : Type} {f : α → Option β} {l : List α} :
    (l.mapM f).isSome ↔ ∀ a ∈ l, (f a).isSome := by
  induction l with
  | nil => simp
  | cons a l ih =>
    rw [List.mapM_cons, List.forall_mem_cons, ← ih]
    cases f a with
    | none => simp
    | some b => cases l.mapM f <;> simp

theorem mapM_mono {α β : Type} {f g : α → Option β} (h : ∀ a b, f a = some b → g a = some b)
    {l : List α} {bs : List β} (hl : l.mapM f = some bs) : l.mapM g = some bs := by
  induction l generalizing bs with
  | nil => exact hl
  | cons a l ih =>
    rw [List.mapM_cons, Option.bind_eq_bind, Option.bind_eq_some_iff] at hl
    obtain ⟨b, hb, hl⟩ := hl
    rw [Option.bind_eq_bind, Option.bind_eq_some_iff] at hl
    obtain ⟨rest, hr, he⟩ := hl
    rw [List.mapM_cons, h a b hb, ih hr]
    exact he

/-! ## Looking deeper -/

theorem describeWithin_error {id : ObjectId} {o} (ho : w.object? id = some o) (hk : o.kind = .error)
    (depth : Nat) : w.describeWithin (depth + 1) (.object id) =
      (w.describeWithin depth (errorField o "name")).bind fun name =>
        (w.describeWithin depth (errorField o "message")).map fun message =>
          name ++ ": " ++ message := by
  rw [describeWithin, ho]
  simp only [hk]
  cases w.describeWithin depth (errorField o "name") with
  | none => rfl
  | some name => cases w.describeWithin depth (errorField o "message") <;> rfl

theorem describeWithin_array {id : ObjectId} {o items} (ho : w.object? id = some o)
    (hk : o.kind = .array items) (depth : Nat) :
    w.describeWithin (depth + 1) (.object id) =
      (items.mapM (w.describeWithin depth)).map (",".intercalate ·) := by
  rw [describeWithin, ho]
  simp only [hk]
  cases items.mapM (w.describeWithin depth) <;> rfl

theorem describeWithin_other {id : ObjectId} {o} (ho : w.object? id = some o) (he : o.kind ≠ .error)
    (ha : ∀ items, o.kind ≠ .array items) (depth : Nat) :
    w.describeWithin (depth + 1) (.object id) = some (kindText o.kind) := by
  rw [describeWithin, ho]
  cases hk : o.kind with
  | error => exact absurd hk he
  | array items => exact absurd hk (ha items)
  | _ => simp only [hk]

/-- An object has a text if all that it shows has one. -/
theorem isSome_describeWithin {id : ObjectId} {depth : Nat} :
    (w.describeWithin (depth + 1) (.object id)).isSome ↔
      ∃ o, w.object? id = some o ∧ ∀ v ∈ textParts o, (w.describeWithin depth v).isSome := by
  cases ho : w.object? id with
  | none => simp [describeWithin, ho]
  | some o =>
    simp only [Option.some.injEq, exists_eq_left']
    rw [textParts]
    cases hk : o.kind with
    | error =>
      rw [describeWithin_error ho hk, List.forall_mem_cons, List.forall_mem_singleton]
      cases w.describeWithin depth (errorField o "name") with
      | none => simp
      | some name => simp
    | array items => rw [describeWithin_array ho hk, Option.isSome_map, isSome_mapM]
    | _ =>
      rw [describeWithin_other ho (by simp [hk]) (by simp [hk])]
      simp

/-- A text does not change when one looks deeper. -/
theorem describeWithin_succ {depth : Nat} {v : ForeignValue} {text : String}
    (h : w.describeWithin depth v = some text) : w.describeWithin (depth + 1) v = some text := by
  induction depth generalizing v text with
  | zero =>
    cases v with
    | object id => cases h
    | _ =>
      cases h
      rfl
  | succ depth ih =>
    cases v with
    | object id =>
      obtain ⟨o, ho, -⟩ := isSome_describeWithin.1 (Option.isSome_of_eq_some h)
      cases hk : o.kind with
      | error =>
        rw [describeWithin_error ho hk] at h ⊢
        obtain ⟨name, hn, h⟩ := Option.bind_eq_some_iff.1 h
        obtain ⟨message, hm, rfl⟩ := Option.map_eq_some_iff.1 h
        rw [ih hn, ih hm]
        rfl
      | array items =>
        rw [describeWithin_array ho hk] at h ⊢
        obtain ⟨texts, ht, rfl⟩ := Option.map_eq_some_iff.1 h
        rw [mapM_mono (fun _ _ => ih) ht]
        rfl
      | _ =>
        rw [describeWithin_other ho (by simp [hk]) (by simp [hk])] at h ⊢
        exact h
    | _ => exact h

theorem describeWithin_le {depth depth' : Nat} (hle : depth ≤ depth') {v : ForeignValue}
    {text : String} (h : w.describeWithin depth v = some text) :
    w.describeWithin depth' v = some text := by
  induction hle with
  | refl => exact h
  | step _ ih => exact describeWithin_succ ih

/-- A text depends on the objects alone. -/
theorem describeWithin_congr {w' : World} (h : w'.objects = w.objects) (depth : Nat)
    (v : ForeignValue) : w'.describeWithin depth v = w.describeWithin depth v := by
  have hobject (id : ObjectId) : w'.object? id = w.object? id := by rw [object?, object?, h]
  induction depth generalizing v with
  | zero => cases v <;> rfl
  | succ depth ih =>
    have ih : w'.describeWithin depth = w.describeWithin depth := funext ih
    cases v with
    | object id => rw [describeWithin, describeWithin, hobject, ih]
    | _ => rfl

theorem describe?_congr {w' : World} (h : w'.objects = w.objects) (v : ForeignValue) :
    w'.describe? v = w.describe? v := by
  rw [describe?, describe?, h, describeWithin_congr h]

theorem describe?_held (w : World) (held : List (List Ref)) (v : ForeignValue) :
    World.describe? { w with held } v = w.describe? v := by
  refine describe?_congr ?_ v
  rfl

/-! ## How deep one has to look -/

/-- The value has a text at one depth more than the given one, but not before. -/
def Needs (w : World) (depth : Nat) (v : ForeignValue) : Prop :=
  (w.describeWithin (depth + 1) v).isSome ∧ ¬ (w.describeWithin depth v).isSome

theorem Needs.unique {depth depth' : Nat} {v : ForeignValue} (h : w.Needs depth v)
    (h' : w.Needs depth' v) : depth = depth' := by
  have hle {d d' : Nat} (h : w.Needs d v) (h' : w.Needs d' v) : d' ≤ d := by
    refine Nat.le_of_not_lt fun hlt => h'.2 ?_
    obtain ⟨text, ht⟩ := Option.isSome_iff_exists.1 h.1
    exact Option.isSome_of_eq_some (describeWithin_le hlt ht)
  exact Nat.le_antisymm (hle h' h) (hle h h')

theorem Needs.isObject {depth : Nat} {v : ForeignValue} (h : w.Needs depth v) :
    ∃ id o, v = .object id ∧ w.object? id = some o := by
  cases v with
  | object id =>
    obtain ⟨o, ho, -⟩ := isSome_describeWithin.1 h.1
    exact ⟨id, o, rfl, ho⟩
  | _ => exact absurd (by cases depth <;> rfl) h.2

/-- Something that a value shows needs one depth less. -/
theorem Needs.below {depth : Nat} {v : ForeignValue} (h : w.Needs (depth + 1) v) :
    ∃ v', w.Needs depth v' := by
  obtain ⟨id, -, rfl, -⟩ := h.isObject
  obtain ⟨o, ho, hall⟩ := isSome_describeWithin.1 h.1
  have hn := h.2
  rw [isSome_describeWithin, not_exists] at hn
  have hn := not_and.1 (hn o) ho
  simp only [not_forall] at hn
  obtain ⟨v', hv, hd⟩ := hn
  exact ⟨v', hall v' hv, hd⟩

theorem Needs.le {depth depth' : Nat} (hle : depth' ≤ depth) {v : ForeignValue}
    (h : w.Needs depth v) : ∃ v', w.Needs depth' v' := by
  induction hle generalizing v with
  | refl => exact ⟨v, h⟩
  | step _ ih =>
    obtain ⟨v', hv⟩ := h.below
    exact ih hv

/-- No value needs more depth than there are objects: each depth below is needed by an object of its
own. -/
theorem Needs.lt_size {depth : Nat} {v : ForeignValue} (h : w.Needs depth v) :
    depth < w.objects.size := by
  have hkey (d : Nat) (hd : d ≤ depth) : ∃ id o, w.Needs d (.object id) ∧ w.object? id = some o := by
    obtain ⟨v', hv⟩ := h.le hd
    obtain ⟨id, o, rfl, ho⟩ := hv.isObject
    exact ⟨id, o, hv, ho⟩
  choose! id hid using hkey
  have hnodup : ((List.range (depth + 1)).map fun d => (id d).index).Nodup := by
    refine List.Nodup.map_on (fun d hd d' hd' he => ?_) List.nodup_range
    obtain ⟨-, hn, -⟩ := hid d (Nat.le_of_lt_succ (List.mem_range.1 hd))
    obtain ⟨-, hn', -⟩ := hid d' (Nat.le_of_lt_succ (List.mem_range.1 hd'))
    have he : id d = id d' := congrArg ObjectId.mk he
    exact hn.unique (he ▸ hn')
  have hsub : (List.range (depth + 1)).map (fun d => (id d).index) ⊆ w.objects.entries.map (·.1) := by
    intro key hk
    obtain ⟨d, hd, rfl⟩ := List.mem_map.1 hk
    obtain ⟨o, -, ho⟩ := hid d (Nat.le_of_lt_succ (List.mem_range.1 hd))
    exact List.mem_map_of_mem (Store.get?_eq_some_iff.1 ho)
  have hlen := (hnodup.subperm hsub).length_le
  rwa [List.length_map, List.length_range, List.length_map] at hlen

theorem isSome_describe? {depth : Nat} {v : ForeignValue} (h : (w.describeWithin depth v).isSome) :
    (w.describe? v).isSome := by
  induction depth with
  | zero =>
    obtain ⟨text, ht⟩ := Option.isSome_iff_exists.1 h
    exact Option.isSome_of_eq_some (describeWithin_le (Nat.zero_le _) ht)
  | succ depth ih =>
    by_cases hd : (w.describeWithin depth v).isSome
    · exact ih hd
    · have hneeds : w.Needs depth v := ⟨h, hd⟩
      obtain ⟨text, ht⟩ := Option.isSome_iff_exists.1 h
      exact Option.isSome_of_eq_some (describeWithin_le (Nat.le_succ_of_le hneeds.lt_size) ht)

/-- **The text of a value** is what one sees at any depth that suffices. -/
theorem describe?_eq_some_iff {v : ForeignValue} {text : String} :
    w.describe? v = some text ↔ ∃ depth, w.describeWithin depth v = some text := by
  constructor
  · exact fun h => ⟨_, h⟩
  · rintro ⟨depth, h⟩
    obtain ⟨text', h'⟩ := Option.isSome_iff_exists.1 (isSome_describe? (Option.isSome_of_eq_some h))
    have hle := describeWithin_le (Nat.le_max_left depth (w.objects.size + 1)) h
    have hle' := describeWithin_le (Nat.le_max_right depth (w.objects.size + 1)) h'
    rw [h', Option.some.inj (hle'.symm.trans hle)]

end World
end Isthmus
