import Isthmus.Proofs.Heap.Lines
import Isthmus.Proofs.Members.Calls
import Isthmus.Proofs.Members.Lookup

/-!
# Proofs/Heap/Assign — what an assignment does

The definition nearest to the object decides what assigning a property does: a setter runs, or a type error
is thrown, or the object itself gets the property, in the place where it had it or at the end.

* `Built.assigns` — in every world of a session, these are the only effects: no other property, no other
  object and no prototype changes.
* `Engine.readBack` — what reading finds after an assignment that ran no setter: the assigned value, but for
  the names that an array answers for itself.  Assigning these succeeds, and reading does not see it.
-/

namespace Isthmus

open World

/-! ## Properties -/

/-- Assigning a property that is defined so is refused: it has no setter, or is read-only. -/
def Property.Refuses : Property → Prop
  | .accessor _ setter _ _ => setter = none
  | .data _ writable _ => writable = false

/-- Assigning a property that is defined so runs code. -/
def Property.RunsSetter : Property → Prop
  | .accessor _ setter _ _ => setter ≠ none
  | .data .. => False

/-- The object that stands for a type error. -/
def Object.typeError (cx : ContextId) (message : String) : Object where
  context := cx
  kind := .error
  properties := [("name", .data (.string "TypeError") true false),
    ("message", .data (.string message) true false)]

/-- The property that an assignment gives an object: it is listed among the keys unless the object had it
already and it was not. -/
def Object.assigned (o : Object) (name : String) (v : ForeignValue) : Property :=
  .data v true (((o.own? name).map (·.isEnumerable)).getD true)

namespace Object

variable {o : Object} {name : String}

/-- **What an assignment leaves of an object**: all but the own property of the name. -/
structure Assigned (o o' : Object) (name : String) (v : ForeignValue) : Prop where
  own : o'.own? name = some (o.assigned name v)
  others : ∀ other, other ≠ name → o'.own? other = o.own? other
  /-- The property stays in its place, or comes last. -/
  names : o'.properties.map (·.1) =
    if o.hasOwn name then o.properties.map (·.1) else o.properties.map (·.1) ++ [name]
  keys : o'.keys = if o.hasOwn name then o.keys else o.keys ++ [name]
  rest : { o' with properties := o.properties } = o

theorem own?_eq_none_iff : o.own? name = none ↔ o.hasOwn name = false := by
  rw [own?, hasOwn, Option.map_eq_none_iff, List.find?_eq_none, List.any_eq_false]

/-- Replacing a property by one that is listed like it leaves the keys. -/
theorem keys_put_of_own {p q : Property} (hn : (o.properties.map (·.1)).Nodup)
    (hp : o.own? name = some p) (he : q.isEnumerable = p.isEnumerable) : (o.put name q).keys = o.keys := by
  have hown : o.hasOwn name = true := by
    rw [← Bool.not_eq_false, ← own?_eq_none_iff, hp]
    exact nofun
  -- The only entry with the name is the one that is found.
  have hentry : ∀ e ∈ o.properties, e.1 = name → e.2 = p := by
    obtain ⟨e', hfind, rfl⟩ := Option.map_eq_some_iff.1 hp
    have hname : e'.1 = name := by simpa using List.find?_some hfind
    exact fun e hm h => congrArg Prod.snd
      (List.inj_on_of_nodup_map hn hm (List.mem_of_find?_eq_some hfind) (h.trans hname.symm))
  simp only [keys, put, hown, if_true, List.filter_map, List.map_map]
  have hfilter : o.properties.filter ((fun e : String × Property => e.2.isEnumerable) ∘ fun e =>
      if e.1 = name then (name, q) else e) = o.properties.filter (·.2.isEnumerable) := by
    refine List.filter_congr fun e hm => ?_
    rw [Function.comp_apply]
    split
    · next h => exact he.trans (congrArg Property.isEnumerable (hentry e hm h)).symm
    · rfl
  rw [hfilter]
  refine List.map_congr_left fun e _ => ?_
  rw [Function.comp_apply]
  split
  · next h => exact h.symm
  · rfl

theorem keys_put_of_new {q : Property} (hp : o.hasOwn name = false) (he : q.isEnumerable = true) :
    (o.put name q).keys = o.keys ++ [name] := by
  simp [keys, put, hp, he]

theorem assigned_put (hn : (o.properties.map (·.1)).Nodup) (name : String) (v : ForeignValue) :
    o.Assigned (o.put name (o.assigned name v)) name v where
  own := by rw [own?_put, if_pos rfl]
  others other h := by rw [own?_put, if_neg h]
  names := names_put o name _
  keys := by
    cases hp : o.own? name with
    | none =>
      have hown := own?_eq_none_iff.1 hp
      rw [hown, if_neg Bool.false_ne_true]
      exact keys_put_of_new hown (by rw [assigned, hp]; rfl)
    | some p =>
      have hown : o.hasOwn name = true := by
        rw [← Bool.not_eq_false, ← own?_eq_none_iff, hp]
        exact nofun
      rw [if_pos hown]
      exact keys_put_of_own hn hp (by rw [assigned, hp]; rfl)
  rest := rfl

end Object

/-! ## Worlds -/

namespace World

/-- **What an assignment leaves of a world**: the object has the property, every other object is as it was,
and there are no new ones.  An object may go, if nothing refers to it any more. -/
structure Writes (w w' : World) (id : ObjectId) (name : String) (v : ForeignValue) : Prop where
  object : ∀ i o, w.object? i = some o → ∃ o', (if i = id then o.Assigned o' name v else o' = o) ∧
    (w'.object? i = some o' ∨ w'.object? i = none ∧ .object i ∉ w'.references)
  gone : ∀ i, w.object? i = none → w'.object? i = none
  held : w'.held = w.held

variable {w : World} {id : ObjectId} {o : Object} {name : String} {v : ForeignValue}

/-- What an assignment leads to: the object has the property, and the value that it had is let go of. -/
def assigning (w : World) (id : ObjectId) (o : Object) (name : String) (v : ForeignValue) : World :=
  (w.putting id name (o.assigned name v)).letGo (refsOf Property.refs (o.own? name))

/-- What is let go of goes, or stays as it was. -/
theorem object?_letGo (w : World) (refs : List Ref) (i : ObjectId) :
    (w.letGo refs).object? i = w.object? i ∨
      (w.letGo refs).object? i = none ∧ .object i ∉ (w.letGo refs).references := by
  have hthin := Thins.release w (refs.map .letGo)
  cases ho : (w.letGo refs).object? i with
  | some o => exact .inl (hthin.objects _ _ ho).symm
  | none =>
    cases hw : w.object? i with
    | none => exact .inl rfl
    | some o =>
      refine .inr ⟨rfl, fun hr => ?_⟩
      have hc := (sparesOwned_release w (refs.map .letGo)).contains _ hr (Store.contains_of_get? hw)
      rw [contains, Store.contains_eq_isSome] at hc
      obtain ⟨o', ho'⟩ := Option.isSome_iff_exists.1 hc
      cases ho.symm.trans ho'

theorem held_assigning (w : World) (id : ObjectId) (o : Object) (name : String) (v : ForeignValue) :
    (w.assigning id o name v).held = w.held :=
  (Thins.release _ _).held

theorem writes_assigning (hn : (o.properties.map (·.1)).Nodup) (ho : w.object? id = some o) :
    w.Writes (w.assigning id o name v) id name v where
  object i q hq := by
    have hput := object?_putting w id name (o.assigned name v) i
    have hend := object?_letGo (w.putting id name (o.assigned name v))
      (refsOf Property.refs (o.own? name)) i
    split at hput
    · next hi =>
      subst hi
      cases ho.symm.trans hq
      refine ⟨_, by rw [if_pos rfl]; exact Object.assigned_put hn name v, hend.imp_left fun h => ?_⟩
      exact h.trans (hput.trans (by rw [ho]; rfl))
    · next hi => exact ⟨q, by rw [if_neg hi], hend.imp_left fun h => h.trans (hput.trans hq)⟩
  gone i hi := by
    have hput := object?_putting w id name (o.assigned name v) i
    rw [hi] at hput
    obtain h | ⟨h, -⟩ := object?_letGo (w.putting id name (o.assigned name v))
      (refsOf Property.refs (o.own? name)) i
    · refine h.trans (hput.trans ?_)
      split <;> rfl
    · exact h
  held := held_assigning w id o name v

end World

/-! ## Assigning -/

namespace Engine

variable {run : Runner} {w w' : World} {cx : ContextId} {id : ObjectId} {o : Object} {name : String}
  {v : ForeignValue}

theorem run_raiseTypeError (message : String) : (raiseTypeError cx message : Engine Unit).run w =
    .error (.thrown (.object ⟨w.objects.next⟩)) (w.adding (.typeError cx message)) := rfl

/-- An assignment that is refused throws. -/
theorem run_setProperty_refused (run : Runner) (v : ForeignValue) (ho : w.object? id = some o)
    (hc : o.context = cx) {p own} (hl : w.lookup id name = some (p, own)) (hp : p.Refuses) :
    ∃ message, (setProperty run cx id name v).run w =
      .error (.thrown (.object ⟨w.objects.next⟩)) (w.adding (.typeError cx message)) := by
  rw [setProperty, run_bind_of_ok (run_checkOwned ho hc), run_get_bind, hl]
  cases p with
  | accessor getter setter data enumerable =>
    cases hp
    exact ⟨_, run_raiseTypeError _⟩
  | data u writable enumerable =>
    cases hp
    exact ⟨_, run_raiseTypeError _⟩

theorem own?_of_lookup (ho : w.object? id = some o) {p own} (hl : w.lookup id name = some (p, own)) :
    o.own? name = if own then some p else none := by
  rw [World.lookup, ho] at hl
  dsimp only at hl
  split at hl
  · next q hq =>
    cases hl
    exact hq
  · next hnone =>
    have hown : own = false := by
      split at hl
      · cases hl
      · split at hl
        · obtain ⟨_, -, he⟩ := Option.map_eq_some_iff.1 hl
          cases he
          rfl
        · cases hl
    rw [hnone, hown]
    rfl

/-- Any other assignment gives the object the property. -/
theorem run_setProperty_written (ho : w.object? id = some o) (hc : o.context = cx)
    (hl : ∀ p own, w.lookup id name = some (p, own) → ¬ p.Refuses ∧ ¬ p.RunsSetter) :
    (setProperty run cx id name v).run w = .ok () (w.assigning id o name v) := by
  have hput : (putOwn id name (o.assigned name v)).run w = .ok () (w.assigning id o name v) := by
    rw [putOwn, run_bind_of_ok (run_object ho)]
    rfl
  rw [setProperty, run_bind_of_ok (run_checkOwned ho hc), run_get_bind]
  cases hfound : w.lookup id name with
  | none =>
    have hown : o.own? name = none := by
      rw [World.lookup, ho] at hfound
      dsimp only at hfound
      split at hfound
      · cases hfound
      · assumption
    rw [Object.assigned, hown] at hput
    exact hput
  | some found =>
    obtain ⟨p, own⟩ := found
    obtain ⟨hrefuses, hruns⟩ := hl p own hfound
    have hown := own?_of_lookup ho hfound
    cases p with
    | accessor getter setter data enumerable =>
      cases setter with
      | none => exact absurd rfl hrefuses
      | some setter => exact absurd (Option.some_ne_none setter) hruns
    | data u writable enumerable =>
      cases writable with
      | false => exact absurd rfl hrefuses
      | true =>
        rw [Object.assigned, hown] at hput
        cases own with
        | true => exact hput
        | false => exact hput

end Engine

/-- **What assigning a property of an object does.** -/
structure World.Assigns (w : World) (run : Runner) (cx : ContextId) (id : ObjectId) (o : Object)
    (name : String) (v : ForeignValue) : Prop where
  /-- Objects of other contexts are not touched. -/
  foreign : o.context ≠ cx → Engine.FailsFast w o.context cx (Engine.setProperty run cx id name v)
  /-- A setter runs once, with the object and the value, and nothing else happens. -/
  setter : o.context = cx → ∀ {getter setter data enumerable own},
    w.lookup id name = some (.accessor getter (some setter) data enumerable, own) →
      (Engine.setProperty run cx id name v).run w = (do
        let _ ← run.call cx setter.callback { receiver := .object id, args := [v], data }).run w
  /-- A type error is thrown, and nothing is different but that it is there. -/
  refused : o.context = cx → ∀ {p own}, w.lookup id name = some (p, own) → p.Refuses →
    ∃ message, (Engine.setProperty run cx id name v).run w =
        .error (.thrown (.object ⟨w.objects.next⟩)) (w.adding (.typeError cx message)) ∧
      w.Spares (w.adding (.typeError cx message))
  written : o.context = cx →
    (∀ p own, w.lookup id name = some (p, own) → ¬ p.Refuses ∧ ¬ p.RunsSetter) →
      ∃ w', (Engine.setProperty run cx id name v).run w = .ok () w' ∧ w.Writes w' id name v

/-- **Assignments.**  In every world of a session, following the prototypes of an object comes to an end and
never comes back, and the search for a definition takes the first on the way.  What it finds decides what an
assignment does: it runs one setter, or throws a type error, or gives the object itself the property, and
nothing else changes. -/
theorem World.Built.assigns {w : World} (h : w.Built) {id : ObjectId} {o : Object}
    (ho : w.object? id = some o) :
    (∃ ids, w.Line id ids ∧ ids.Nodup ∧ ∀ name, w.lookup id name = w.nearest? id ids name) ∧
    ∀ run cx name v, w.Assigns run cx id o name v := by
  obtain ⟨ids, hline, hnodup⟩ := h.exists_line ho
  refine ⟨⟨ids, hline, hnodup, h.rooted.lookup_eq hline⟩, fun run cx name v => ?_⟩
  exact
    { foreign := fun hc => (Engine.failsFast_checkOwned ho hc).bind _
      setter := fun hc _ _ _ _ _ hl => Engine.run_setProperty_setter run ho hc hl v
      refused := fun hc _ _ hl hp => by
        obtain ⟨message, hrun⟩ := Engine.run_setProperty_refused run v ho hc hl hp
        exact ⟨message, hrun, w.spares_adding _⟩
      written := fun hc hl => ⟨_, Engine.run_setProperty_written ho hc hl,
        writes_assigning (h.rooted.names ho) ho⟩ }

namespace Shelf

/-- An object with a property that is read-only and one that has a setter. -/
def base : Object where
  context := ⟨0⟩
  properties := [("fixed", .data (.bool true) false true),
    ("slot", .accessor none (some (.stock .setSlot)) 0 true)]

/-- An object that has it for a prototype. -/
def box : Object where
  context := ⟨0⟩
  prototype := some ⟨0⟩
  properties := [("hidden", .data (.bool true) true false), ("shown", .plain .null)]

def world : World :=
  (({} : World).adding base).adding box

theorem built_world : world.Built := by
  have hbase : HeapSteps {} (({} : World).adding base) :=
    trans_of _ (.single (.create (o := base) nofun (by decide))) (.of_eq rfl)
  have hthere : ∃ q, (({} : World).adding base).object? ⟨0⟩ = some q := ⟨base, rfl⟩
  have hbox : HeapSteps (({} : World).adding base) world := by
    refine trans_of _ (.single (.create (o := box) (fun p hp => ?_) (by decide))) (.of_eq rfl)
    cases hp
    exact hthere
  exact ⟨{}, trans_of _ hbase hbox⟩

theorem object?_box : world.object? ⟨1⟩ = some box := rfl

theorem line_box : world.Line ⟨1⟩ [⟨1⟩, ⟨0⟩] :=
  .cons object?_box rfl (.last (o := base) rfl rfl)

end Shelf

/-- The object does not get a property that is read-only where it is inherited from; it gets a new one at
the end, and keeps an old one in its place and hidden. -/
theorem World.Built.assigns_box :
    (∃ message, (Engine.setProperty (Session.runner 1) ⟨0⟩ ⟨1⟩ "fixed" .null).run Shelf.world =
      .error (.thrown (.object ⟨2⟩)) (Shelf.world.adding (.typeError ⟨0⟩ message))) ∧
    (∃ w' o', (Engine.setProperty (Session.runner 1) ⟨0⟩ ⟨1⟩ "new" .null).run Shelf.world = .ok () w' ∧
      w'.object? ⟨1⟩ = some o' ∧ o'.keys = ["shown", "new"]) ∧
    ∃ w' o', (Engine.setProperty (Session.runner 1) ⟨0⟩ ⟨1⟩ "hidden" .null).run Shelf.world = .ok () w' ∧
      w'.object? ⟨1⟩ = some o' ∧ o'.keys = ["shown"] ∧ o'.own? "hidden" = some (.data .null true false) := by
  obtain ⟨⟨ids, hline, -, hlookup⟩, hassigns⟩ := Shelf.built_world.assigns Shelf.object?_box
  obtain rfl := hline.unique Shelf.line_box
  have hassigns := hassigns (Session.runner 1) ⟨0⟩
  have hstays {w' : World} {name : String} (hw : Shelf.world.Writes w' ⟨1⟩ name .null) :
      ∃ o', Shelf.box.Assigned o' name .null ∧ w'.object? ⟨1⟩ = some o' := by
    obtain ⟨o', hassigned, hsame | ⟨-, hr⟩⟩ := hw.object ⟨1⟩ Shelf.box rfl
    · exact ⟨o', hassigned, hsame⟩
    · refine absurd (held_subset_references _ ?_) hr
      rw [hw.held]
      decide
  refine ⟨?_, ?_, ?_⟩
  · have hfixed : Shelf.world.lookup ⟨1⟩ "fixed" = some (.data (.bool true) false true, false) := hlookup _
    obtain ⟨message, hrun, -⟩ := (hassigns "fixed" .null).refused rfl hfixed rfl
    exact ⟨message, hrun⟩
  · have hnew : Shelf.world.lookup ⟨1⟩ "new" = none := hlookup _
    obtain ⟨w', hrun, hw⟩ := (hassigns "new" .null).written rfl fun p own h => nomatch hnew.symm.trans h
    obtain ⟨o', hassigned, ho'⟩ := hstays hw
    exact ⟨w', o', hrun, ho', hassigned.keys⟩
  · have hhidden : Shelf.world.lookup ⟨1⟩ "hidden" = some (.data (.bool true) true false, true) := hlookup _
    obtain ⟨w', hrun, hw⟩ := (hassigns "hidden" .null).written rfl fun p own h => by
      cases hhidden.symm.trans h
      exact ⟨nofun, nofun⟩
    obtain ⟨o', hassigned, ho'⟩ := hstays hw
    exact ⟨w', o', hrun, ho', hassigned.keys, hassigned.own⟩

/-! ## Reading back -/

/-- What reading a property finds right after it was assigned. -/
inductive ReadsBack (o : Object) (name : String) (v : ForeignValue) : ForeignValue → Prop where
  /-- The assigned value. -/
  | assigned (h : ∀ items, o.kind = .array items → name ≠ "length" ∧ Text.numeral? name.toList = none) :
      ReadsBack o name v v
  /-- Arrays answer for their length. -/
  | length {items} (hk : o.kind = .array items) (hn : name = "length") :
      ReadsBack o name v (.number (Float.ofNat items.length))
  /-- Arrays answer for their items. -/
  | item {items index} (hk : o.kind = .array items) (hn : name ≠ "length")
      (hi : Text.numeral? name.toList = some index) : ReadsBack o name v (items[index]?.getD .undefined)

namespace Engine

variable {run : Runner} {w w' : World} {cx : ContextId} {id : ObjectId} {o : Object} {name : String}
  {v : ForeignValue}

theorem readsBack (o : Object) (name : String) (v : ForeignValue) :
    ReadsBack o name v ((arrayAnswer? o name).getD v) := by
  rw [arrayAnswer?, Object.items?]
  split
  · next items hk =>
    rw [Option.bind_eq_bind, Option.bind_some]
    split
    · exact .length hk ‹_›
    · next hn =>
      cases hi : Text.numeral? name.toList with
      | none => exact .assigned fun _ _ => ⟨hn, hi⟩
      | some index => exact .item hk hn hi
  · next hk => exact .assigned fun items h => absurd h (hk items)

/-- An array answers by its kind alone. -/
theorem arrayAnswer?_put (o : Object) (name : String) (q : String) (p : Property) :
    arrayAnswer? (o.put q p) name = arrayAnswer? o name := rfl

/-- **Reading after an assignment** that ran no setter, by whoever holds the object: the assigned value is
found, unless the object is an array and answers for the name itself. -/
theorem readBack (ho : w.object? id = some o) (hheld : .object id ∈ w.held.flatten)
    (hno : ∀ p own, w.lookup id name = some (p, own) → ¬ p.RunsSetter)
    (hset : (setProperty run cx id name v).run w = .ok () w') (run' : Runner) :
    ∃ u, ReadsBack o name v u ∧
      (getProperty run' cx id name).run w' = .ok u (w'.holding u.refs) := by
  refine ⟨_, readsBack o name v, ?_⟩
  -- An assignment that succeeds is one of an object of the context, and was not refused.
  have hc : o.context = cx := by
    by_contra hc
    have hforeign : FailsFast w o.context cx (setProperty run cx id name v) :=
      (failsFast_checkOwned ho hc).bind _
    exact nomatch hset.symm.trans hforeign
  have hl : ∀ p own, w.lookup id name = some (p, own) → ¬ p.Refuses ∧ ¬ p.RunsSetter := by
    refine fun p own hl => ⟨fun hp => ?_, hno p own hl⟩
    obtain ⟨message, hthrow⟩ := run_setProperty_refused run v ho hc hl hp
    exact nomatch hset.symm.trans hthrow
  cases hset.symm.trans (run_setProperty_written (v := v) ho hc hl)
  -- The object is held, so it is still there.
  have hthere : (w.assigning id o name v).object? id = some (o.put name (o.assigned name v)) := by
    have hput := object?_putting w id name (o.assigned name v) id
    rw [if_pos rfl, ho, Option.map_some] at hput
    obtain hsame | ⟨-, hr⟩ := object?_letGo (w.putting id name (o.assigned name v))
      (refsOf Property.refs (o.own? name)) id
    · exact hsame.trans hput
    · refine absurd (held_subset_references _ ?_) hr
      exact (held_assigning w id o name v) ▸ hheld
  rw [getProperty, run_bind_of_ok (run_checkOwned hthere hc), run_bind_of_ok (run_object hthere),
    arrayAnswer?_put]
  cases arrayAnswer? o name with
  | some u => rfl
  | none =>
    have hown : (w.assigning id o name v).lookup id name = some (o.assigned name v, true) := by
      rw [World.lookup, hthere]
      dsimp only
      rw [Object.own?_put, if_pos rfl]
    rw [run_get_bind, hown]
    rfl

end Engine

namespace Row

/-- An array of one item. -/
def items : List ForeignValue :=
  [.bool true]

def array : Object where
  context := ⟨0⟩
  kind := .array items

def world : World :=
  ({} : World).adding array

theorem lookup_world (name : String) : world.lookup ⟨0⟩ name = none := by
  rw [World.lookup]
  rfl

end Row

/-- Assigning an item of an array succeeds, but reading finds the item that was there; other names of the
array are read back. -/
theorem Engine.readBack_of_item :
    (∃ w' w'', (setProperty (Session.runner 1) ⟨0⟩ ⟨0⟩ "0" .null).run Row.world = .ok () w' ∧
      (getProperty (Session.runner 1) ⟨0⟩ ⟨0⟩ "0").run w' = .ok (.bool true) w'') ∧
    ∃ w' w'', (setProperty (Session.runner 1) ⟨0⟩ ⟨0⟩ "size" .null).run Row.world = .ok () w' ∧
      (getProperty (Session.runner 1) ⟨0⟩ ⟨0⟩ "size").run w' = .ok .null w'' := by
  have hset (name : String) : ∃ w', (setProperty (Session.runner 1) ⟨0⟩ ⟨0⟩ name .null).run Row.world =
      .ok () w' := by
    refine ⟨_, run_setProperty_written (o := Row.array) rfl rfl fun p own h => ?_⟩
    exact nomatch (Row.lookup_world name).symm.trans h
  have hread {name : String} {w'} (h : (setProperty (Session.runner 1) ⟨0⟩ ⟨0⟩ name .null).run Row.world =
      .ok () w') := readBack (o := Row.array) rfl (List.mem_singleton_self _)
    (fun p own hl => nomatch (Row.lookup_world name).symm.trans hl) h (Session.runner 1)
  constructor
  · obtain ⟨w', h⟩ := hset "0"
    obtain ⟨u, hu, hget⟩ := hread h
    have hnumeral : Text.numeral? "0".toList = some 0 := by decide
    cases hu with
    | assigned h => exact nomatch hnumeral.symm.trans (h Row.items rfl).2
    | length hk hn => exact absurd hn (by decide)
    | item hk hn hi =>
      cases hk
      cases hnumeral.symm.trans hi
      exact ⟨w', _, h, hget⟩
  · obtain ⟨w', h⟩ := hset "size"
    obtain ⟨u, hu, hget⟩ := hread h
    have hnumeral : Text.numeral? "size".toList = none := by decide
    cases hu with
    | assigned => exact ⟨w', _, h, hget⟩
    | length hk hn => exact absurd hn (by decide)
    | item hk hn hi => exact nomatch hnumeral.symm.trans hi

end Isthmus
