import Isthmus.Proofs.Lifetime.Release
import Isthmus.Proofs.Run.Names
import Mathlib.Logic.Relation

/-!
# Proofs/Lifetime/Edits — how handles and native data change

A world changes by edits as far as handles, native instances and the native data of objects are concerned:
handles are named, native data is attached to objects that have none, and owners let go.  All other
changes leave these things alone (`World.Still`).

* `Edits.follows` — handles only move on, native data that was attached stays the same, and what has gone
  does not come back.
* `Edits.orderly` — an object carries a handle that is bound, no other object carries the same, and handles
  with a name are not bound yet.
* `Edits.exists_release` — what goes does so when owners let go, and then nothing refers to it.
-/

namespace Isthmus

/-! ## Stores in the course of time -/

namespace Store

variable {α : Type} {s s' s'' : Store α} {old old' : α → α → Prop} {new new' : α → Prop}
  {key : Nat} {a : α}

/-- What has a key in both stores is related, and nothing comes back. -/
structure Follows (old : α → α → Prop) (s s' : Store α) : Prop where
  next_le : s.next ≤ s'.next
  old : ∀ {key a'}, key < s.next → s'.get? key = some a' → ∃ a, s.get? key = some a ∧ old a a'

/-- Nothing goes, and all that is new has a property. -/
structure Extends (old : α → α → Prop) (new : α → Prop) (s s' : Store α) : Prop extends
    s.Follows old s' where
  stays : ∀ key, s.contains key → s'.contains key
  new : ∀ {key a'}, s.next ≤ key → s'.get? key = some a' → new a'

/-- A store follows itself. -/
theorem Follows.refl (hr : ∀ a, old a a) (s : Store α) : s.Follows old s :=
  ⟨Nat.le_refl _, fun _ h => ⟨_, h, hr _⟩⟩

/-- Stores that follow each other, step by step. -/
theorem Follows.trans (ht : ∀ {a b c}, old a b → old b c → old a c) (h : s.Follows old s')
    (h' : s'.Follows old s'') : s.Follows old s'' := by
  refine ⟨Nat.le_trans h.next_le h'.next_le, fun hk ha => ?_⟩
  obtain ⟨b, hb, hbc⟩ := h'.old (Nat.lt_of_lt_of_le hk h.next_le) ha
  obtain ⟨a, ha, hab⟩ := h.old hk hb
  exact ⟨a, ha, ht hab hbc⟩

/-- To follow in a stronger sense is to follow. -/
theorem Follows.mono (h : s.Follows old s') (ho : ∀ a b, old a b → old' a b) : s.Follows old' s' :=
  ⟨h.next_le, fun hk ha =>
    let ⟨a, ha', hr⟩ := h.old hk ha
    ⟨a, ha', ho _ _ hr⟩⟩

/-- Things go. -/
theorem Follows.of_loses (hr : ∀ a, old a a) (hn : s'.next = s.next)
    (h : ∀ key a, s'.get? key = some a → s.get? key = some a) : s.Follows old s' :=
  ⟨Nat.le_of_eq hn.symm, fun _ ha => ⟨_, h _ _ ha, hr _⟩⟩

/-- A store extends itself. -/
theorem Extends.refl (hr : ∀ a, old a a) (s : Store α) : s.Extends old new s where
  toFollows := .refl hr s
  stays _ h := h
  new hk ha := absurd (lt_next_of_get? ha) (Nat.not_lt.2 hk)

/-- A new entry extends a store. -/
theorem Extends.insert (hr : ∀ a, old a a) (hn : new a) : s.Extends old new (s.insert a) where
  next_le := Nat.le_succ _
  old hk ha := by
    rw [get?_insert, if_neg (Nat.ne_of_lt hk)] at ha
    exact ⟨_, ha, hr _⟩
  stays key h := by
    rw [contains_eq_isSome] at h
    obtain ⟨b, hb⟩ := Option.isSome_iff_exists.1 h
    rw [contains_eq_isSome, get?_insert, if_neg (Nat.ne_of_lt (lt_next_of_get? hb)), hb]
    rfl
  new hk ha := by
    rw [get?_insert] at ha
    split at ha
    · cases ha
      exact hn
    · exact absurd (lt_next_of_get? ha) (Nat.not_lt.2 hk)

/-- So does a change of an entry that the old one allows. -/
theorem Extends.modify (hr : ∀ a, old a a) {f : α → α} (hf : ∀ a, s.get? key = some a → old a (f a)) :
    s.Extends old new (s.modify key f) where
  next_le := Nat.le_refl _
  old {k b} _ hb := by
    rw [get?_modify] at hb
    split at hb
    · next hk =>
      obtain ⟨a, ha, rfl⟩ := Option.map_eq_some_iff.1 hb
      exact ⟨a, ha, hf a (hk ▸ ha)⟩
    · exact ⟨b, hb, hr b⟩
  stays _ h := by rwa [contains_modify]
  new {k b} hk hb := by
    have hc := contains_of_get? hb
    rw [contains_modify, contains_eq_isSome] at hc
    obtain ⟨a, ha⟩ := Option.isSome_iff_exists.1 hc
    exact absurd (lt_next_of_get? ha) (Nat.not_lt.2 hk)

end Store

/-! ## What does not change -/

/-- How far a handle has come, as a number. -/
def HandleState.rank : HandleState → Nat
  | unbound => 0
  | bound => 1
  | released => 2

/-- A handle stays what it is, and may have come further. -/
structure Handle.Advances (x x' : Handle) : Prop where
  cls : x'.cls = x.cls
  inst : x'.inst = x.inst
  ownership : x'.ownership = x.ownership
  rank_le : x.state.rank ≤ x'.state.rank

/-- An object keeps its context and its native data; finalizers are added behind those that it has. -/
structure Object.Continues (o o' : Object) : Prop where
  context : o'.context = o.context
  attachment : ∀ a, o.attachment = some a → o'.attachment = some a
  finalizers : o.finalizers <+: o'.finalizers

/-- A handle that stays as it is advances. -/
theorem Handle.Advances.refl (x : Handle) : x.Advances x :=
  ⟨rfl, rfl, rfl, Nat.le_refl _⟩

/-- Handles advance step by step. -/
theorem Handle.Advances.trans {x y z : Handle} (h : x.Advances y) (h' : y.Advances z) : x.Advances z :=
  ⟨h'.cls.trans h.cls, h'.inst.trans h.inst, h'.ownership.trans h.ownership,
    Nat.le_trans h.rank_le h'.rank_le⟩

theorem Object.Continues.refl (o : Object) : o.Continues o :=
  ⟨rfl, fun _ h => h, List.prefix_rfl⟩

/-- Objects continue step by step. -/
theorem Object.Continues.trans {o p q : Object} (h : o.Continues p) (h' : p.Continues q) :
    o.Continues q :=
  ⟨h'.context.trans h.context, fun a ha => h'.attachment a (h.attachment a ha),
    h.finalizers.trans h'.finalizers⟩

namespace World

variable {w w' : World}

/-- Handles only move on, native data that was attached stays the same, and what has gone does not come
back. -/
structure Follows (w w' : World) : Prop where
  objects : w.objects.Follows Object.Continues w'.objects
  handles : w.handles.Follows Handle.Advances w'.handles
  instances : w.instances.Follows (fun _ _ => True) w'.instances

instance : IsPreorder World Follows where
  refl _ := ⟨.refl .refl _, .refl .refl _, .refl (fun _ => trivial) _⟩
  trans _ _ _ h h' := ⟨h.objects.trans .trans h'.objects, h.handles.trans .trans h'.handles,
    h.instances.trans (fun _ _ => trivial) h'.instances⟩

/-- No native data is attached and no handle is bound, and no object, handle or instance goes.  Handles
may lose their names. -/
structure Still (w w' : World) : Prop where
  objects : w.objects.Extends (fun o o' => o.Continues o' ∧ o'.attachment = o.attachment)
    (·.attachment = none) w'.objects
  handles : w.handles.Extends (fun x x' => x.Advances x' ∧ x'.state = x.state) (·.state = .unbound)
    w'.handles
  instances : w.instances.Extends (fun _ _ => True) (fun _ => True) w'.instances
  names : w'.roots.handles.Sublist w.roots.handles

/-- To stand still is to follow. -/
theorem Still.follows (h : w.Still w') : w.Follows w' where
  objects := h.objects.mono fun _ _ => And.left
  handles := h.handles.mono fun _ _ => And.left
  instances := h.instances.toFollows

/-- What the laws about handles, objects and promises speak of. -/
def holdings (w : World) :=
  (w.objects, w.handles, w.instances, w.roots.handles, w.promises)

theorem Still.refl (w : World) : w.Still w where
  objects := .refl (fun o => ⟨.refl o, rfl⟩) _
  handles := .refl (fun x => ⟨.refl x, rfl⟩) _
  instances := .refl (fun _ => trivial) _
  names := .refl _

/-- Who leaves holdings alone stands still. -/
theorem Still.of_eq (h : w'.holdings = w.holdings) : w.Still w' := by
  simp only [holdings, Prod.mk.injEq] at h
  obtain ⟨ho, hh, hi, hn, -⟩ := h
  have hw := Still.refl w
  exact ⟨ho ▸ hw.objects, hh ▸ hw.handles, hi ▸ hw.instances, hn ▸ hw.names⟩

/-- Registering and queueing leave holdings alone. -/
theorem Posts.holdings (h : Posts w w') : w'.holdings = w.holdings ∧ w'.held = w.held := by
  cases h with
  | _ => exact ⟨rfl, rfl⟩

/-- So does a firing without interruption. -/
theorem fire_holdings (w : World) (id : ChannelsId) (event : Nat) (args : List NativeValue) :
    (w.fire id event args).1.holdings = w.holdings ∧ (w.fire id event args).1.held = w.held := by
  let Same (w w' : World) : Prop := w'.holdings = w.holdings ∧ w'.held = w.held
  have hpre : IsPreorder World Same := {
    refl := fun _ => ⟨rfl, rfl⟩
    trans := fun _ _ _ h h' => ⟨h'.1.trans h.1, h'.2.trans h.2⟩ }
  exact fire_of_posts (R := Same) Posts.holdings w id event args

/-- So does forgetting callbacks. -/
theorem prune_holdings (w : World) (id : InstallationId) :
    (w.prune id).1.holdings = w.holdings ∧ (w.prune id).1.held = w.held := by
  rw [prune]
  split
  · exact ⟨rfl, rfl⟩
  · exact ⟨rfl, rfl⟩

/-! ## Letting go -/

/-- Things may go, but nothing else happens to objects, handles, instances, names and promises. -/
structure Thins (w w' : World) : Prop where
  objects_next : w'.objects.next = w.objects.next
  objects : ∀ key o, w'.objects.get? key = some o → w.objects.get? key = some o
  handles_next : w'.handles.next = w.handles.next
  handles : ∀ key x, w'.handles.get? key = some x → w.handles.get? key = some x
  instances_next : w'.instances.next = w.instances.next
  instances : ∀ key i, w'.instances.get? key = some i → w.instances.get? key = some i
  names : w'.roots.handles = w.roots.handles
  promises : w'.promises = w.promises
  held : w'.held = w.held

instance : IsPreorder World Thins where
  refl _ := ⟨rfl, fun _ _ h => h, rfl, fun _ _ h => h, rfl, fun _ _ h => h, rfl, rfl, rfl⟩
  trans _ _ _ h h' := ⟨h'.objects_next.trans h.objects_next,
    fun k o ho => h.objects k o (h'.objects k o ho), h'.handles_next.trans h.handles_next,
    fun k x hx => h.handles k x (h'.handles k x hx), h'.instances_next.trans h.instances_next,
    fun k i hi => h.instances k i (h'.instances k i hi), h'.names.trans h.names,
    h'.promises.trans h.promises, h'.held.trans h.held⟩

/-- Who leaves holdings and what is held alone thins nothing out. -/
theorem Thins.of_eq (h : w'.holdings = w.holdings ∧ w'.held = w.held) : Thins w w' := by
  simp only [holdings, Prod.mk.injEq] at h
  obtain ⟨⟨ho, hh, hi, hn, hp⟩, hheld⟩ := h
  exact ⟨congrArg _ ho, fun _ _ h => ho ▸ h, congrArg _ hh, fun _ _ h => hh ▸ h, congrArg _ hi,
    fun _ _ h => hi ▸ h, hn, hp, hheld⟩

/-- To destroy something only thins the world out. -/
theorem Thins.destroy (w : World) (r : Ref) : Thins w (w.destroy r).1 := by
  have herase {α : Type} (s : Store α) (key k : Nat) (a : α) (h : (s.erase key).get? k = some a) :
      s.get? k = some a := by
    rw [Store.get?_erase] at h
    split at h
    · cases h
    · exact h
  have hd := w.destroys r
  generalize (w.destroy r).1 = w' at hd
  cases hd with
  | object => exact ⟨rfl, herase _ _, rfl, fun _ _ h => h, rfl, fun _ _ h => h, rfl, rfl, rfl⟩
  | handle => exact ⟨rfl, fun _ _ h => h, rfl, herase _ _, rfl, fun _ _ h => h, rfl, rfl, rfl⟩
  | inst => exact ⟨rfl, fun _ _ h => h, rfl, fun _ _ h => h, rfl, herase _ _, rfl, rfl, rfl⟩
  | channels hc => exact .of_eq (prune_holdings (w.disconnect _ _) _)
  | abandoned hd ha => exact .of_eq (Posts.post (w.expire _) _ _).holdings
  | _ => exact .of_eq ⟨rfl, rfl⟩

/-- **Letting go only thins the world out**. -/
theorem Thins.release (w : World) (fs : List Farewell) : Thins w (w.release fs) :=
  release_induction (fun _ _ => .of_eq ⟨rfl, rfl⟩) (fun w r _ => .destroy w r) w fs

/-- What is thinned out follows what it was. -/
theorem Thins.follows (h : Thins w w') : w.Follows w' where
  objects := .of_loses .refl h.objects_next h.objects
  handles := .of_loses .refl h.handles_next h.handles
  instances := .of_loses (fun _ => trivial) h.instances_next h.instances

/-! ## Edits -/

/-- The world in which a handle has a name. -/
def naming (w : World) (name : String) (id : HandleId) : World :=
  { w with roots.handles := w.roots.handles.put name id }

/-- The world in which an object has native data. -/
def wrapping (w : World) (obj : ObjectId) (data : Attachment) : World :=
  { w with objects := w.objects.modify obj.index ({ · with attachment := some data }) }

/-- The world in which a handle is bound to an object. -/
def binding (w : World) (id : HandleId) (obj : ObjectId) : World :=
  { w.wrapping obj (.handle id) with
    handles := w.handles.modify id.index ({ · with state := .bound }) }

/-- What happens to handles and to native data. -/
inductive Edit (w : World) : World → Prop where
  /-- Something else happens. -/
  | still {w' : World} (h : w.Still w') : Edit w w'
  /-- An unbound handle that has no name gets one. -/
  | name {id : HandleId} {x : Handle} (name : String) (hx : w.handle? id = some x)
      (hu : x.state = .unbound)
      (hn : ∀ e ∈ w.roots.handles, e.2 ≠ id) : Edit w (w.naming name id)
  /-- Plain data is attached to an object that has no native data. -/
  | wrap {obj : ObjectId} {o : Object} (data : Script.Payload) (ho : w.object? obj = some o)
      (ha : o.attachment = none) :
      Edit w (w.wrapping obj (.plain data))
  /-- A handle without a name is bound to an object that has no native data; an exclusive one is then the
  only owner of its instance. -/
  | bind {id : HandleId} {x : Handle} {obj : ObjectId} {o : Object} (hx : w.handle? id = some x)
      (hu : x.state = .unbound)
      (hn : ∀ e ∈ w.roots.handles, e.2 ≠ id) (ho : w.object? obj = some o) (ha : o.attachment = none)
      (hc : x.ownership = .shared ∨ w.count (.inst x.inst) = 1) : Edit w (w.binding id obj)
  /-- Owners let go of things. -/
  | release (fs : List Farewell) : Edit w (w.release fs)

/-- A sequence of edits. -/
abbrev Edits : World → World → Prop :=
  Relation.ReflTransGen Edit

/-- An edit attaches native data only to an object that has none. -/
theorem follows_wrapping {obj : ObjectId} {o : Object} (ho : w.object? obj = some o)
    (ha : o.attachment = none) (data : Attachment) : w.Follows (w.wrapping obj data) where
  objects := by
    have h : w.objects.Extends Object.Continues (fun _ => True)
        (w.objects.modify obj.index ({ · with attachment := some data })) := by
      refine .modify Object.Continues.refl fun o' ho' => ?_
      cases ho.symm.trans ho'
      exact ⟨rfl, fun a h => (nomatch ha.symm.trans h), List.prefix_rfl⟩
    exact h.toFollows
  handles := .refl .refl _
  instances := .refl (fun _ => trivial) _

/-- **An edit leads on**: handles advance, and objects continue. -/
theorem Edit.follows (h : Edit w w') : w.Follows w' := by
  cases h with
  | still h => exact h.follows
  | name name hx hu hn => exact ⟨.refl .refl _, .refl .refl _, .refl (fun _ => trivial) _⟩
  | wrap data ho ha => exact follows_wrapping ho ha _
  | @bind id x obj o hx hu hn ho ha hc =>
    have h : w.handles.Extends Handle.Advances (fun _ => True)
        (w.handles.modify id.index ({ · with state := .bound })) := by
      refine .modify Handle.Advances.refl fun x' hx' => ?_
      cases hx.symm.trans hx'
      exact ⟨rfl, rfl, rfl, by rw [hu]; exact Nat.zero_le _⟩
    exact ⟨(follows_wrapping ho ha (.handle id)).objects, h.toFollows, .refl (fun _ => trivial) _⟩
  | release fs => exact (Thins.release w fs).follows

/-- **Handles only move on**, native data that was attached stays the same, and what has gone does not
come back. -/
theorem Edits.follows (h : Edits w w') : w.Follows w' := by
  induction h with
  | refl => exact refl_of Follows w
  | tail _ h ih => exact trans_of Follows ih h.follows

/-! ## Who carries what -/

/-- The object carries the handle. -/
def Carried (w : World) (h : HandleId) (obj : ObjectId) : Prop :=
  ∃ o, w.object? obj = some o ∧ o.attachment = some (.handle h)

/-- Objects carry bound handles, each another one, and names stand for unbound handles, each for another
one. -/
structure Orderly (w : World) : Prop where
  carried : ∀ {h obj}, w.Carried h obj → ∃ x, w.handle? h = some x ∧ x.state = .bound
  unique : ∀ {h obj obj'}, w.Carried h obj → w.Carried h obj' → obj = obj'
  named : ∀ e ∈ w.roots.handles, ∃ x, w.handle? e.2 = some x ∧ x.state = .unbound
  distinct : ∀ e ∈ w.roots.handles, ∀ e' ∈ w.roots.handles, e.2 = e'.2 → e.1 = e'.1
  state : ∀ {h x}, w.handle? h = some x → x.state ≠ .released

/-- No object carries a handle that is not bound. -/
theorem Orderly.not_carried (hw : w.Orderly) {h : HandleId} {x : Handle} (hx : w.handle? h = some x)
    (hu : x.state = .unbound) (obj : ObjectId) : ¬ w.Carried h obj := by
  intro hc
  obtain ⟨x', hx', hb⟩ := hw.carried hc
  cases hx.symm.trans hx'
  exact nomatch hu.symm.trans hb

/-- Who is carried by an object is referred to. -/
theorem mem_references_of_carried {h : HandleId} {obj : ObjectId} (hc : w.Carried h obj) :
    .handle h ∈ w.references := by
  obtain ⟨o, ho, ha⟩ := hc
  have hmem : Ref.handle h ∈ w.objects.values.flatMap Object.refs := by
    refine List.mem_flatMap.2 ⟨o, Store.mem_values.2 ⟨_, ho⟩, ?_⟩
    rw [Object.refs, ha]
    exact List.mem_cons_self ..
  simp only [references, List.mem_append, hmem, true_or, or_true]

/-- So is one that has a name. -/
theorem mem_references_of_named {e : String × HandleId} (he : e ∈ w.roots.handles) :
    .handle e.2 ∈ w.references := by
  have hmem : Ref.handle e.2 ∈ w.roots.refs := by
    simp only [Roots.refs, List.mem_append, List.mem_map]
    exact .inl (.inl (.inl (.inl (.inl (.inr ⟨e, he, rfl⟩)))))
  simp only [references, List.mem_append, hmem, true_or]

/-- Where nothing moves, objects carry what they carried. -/
theorem Still.carried (h : w.Still w') {id : HandleId} {obj : ObjectId} (hc : w'.Carried id obj) :
    w.Carried id obj := by
  obtain ⟨o, ho, ha⟩ := hc
  obtain hlt | hle := Nat.lt_or_ge obj.index w.objects.next
  · obtain ⟨o', ho', hcont, ha'⟩ := h.objects.old hlt ho
    exact ⟨o', ho', ha' ▸ ha⟩
  · exact nomatch ha.symm.trans (h.objects.new hle ho)

/-- Handles are where they were. -/
theorem Still.handle (h : w.Still w') {id : HandleId} {x : Handle} (hx : w.handle? id = some x) :
    ∃ x', w'.handle? id = some x' ∧ x'.state = x.state := by
  have hc := h.handles.stays _ (Store.contains_of_get? hx)
  rw [Store.contains_eq_isSome] at hc
  obtain ⟨x', hx'⟩ := Option.isSome_iff_exists.1 hc
  obtain ⟨y, hy, -, hs⟩ := h.handles.old (Store.lt_next_of_get? hx) hx'
  cases hx.symm.trans hy
  exact ⟨x', hx', hs⟩

/-- Order among the handles stays. -/
theorem Still.orderly (h : w.Still w') (hw : w.Orderly) : w'.Orderly where
  carried hc := by
    obtain ⟨x, hx, hb⟩ := hw.carried (h.carried hc)
    obtain ⟨x', hx', hs⟩ := h.handle hx
    exact ⟨x', hx', hs.trans hb⟩
  unique hc hc' := hw.unique (h.carried hc) (h.carried hc')
  named e he := by
    obtain ⟨x, hx, hu⟩ := hw.named e (h.names.subset he)
    obtain ⟨x', hx', hs⟩ := h.handle hx
    exact ⟨x', hx', hs.trans hu⟩
  distinct e he e' he' := hw.distinct e (h.names.subset he) e' (h.names.subset he')
  state {id x} hx := by
    obtain hlt | hle := Nat.lt_or_ge id.index w.handles.next
    · obtain ⟨x', hx', -, hs⟩ := h.handles.old hlt hx
      exact hs ▸ hw.state hx'
    · rw [h.handles.new hle hx]
      exact nofun

/-- A handle that is still referred to survives a release. -/
theorem handle?_release {fs : List Farewell} {id : HandleId} {x : Handle} (hx : w.handle? id = some x)
    (hr : .handle id ∈ (w.release fs).references) : (w.release fs).handle? id = some x := by
  have hc := (sparesOwned_release w fs).contains _ hr (Store.contains_of_get? hx)
  rw [contains, Store.contains_eq_isSome] at hc
  obtain ⟨x', hx'⟩ := Option.isSome_iff_exists.1 hc
  cases hx.symm.trans ((Thins.release w fs).handles _ _ hx')
  exact hx'

/-- A release leaves the handles in order. -/
theorem Orderly.release (hw : w.Orderly) (fs : List Farewell) : (w.release fs).Orderly := by
  have hthin := Thins.release w fs
  have hcarried {id obj} : (w.release fs).Carried id obj → w.Carried id obj :=
    fun ⟨o, ho, ha⟩ => ⟨o, hthin.objects _ _ ho, ha⟩
  refine ⟨fun hc => ?_, fun hc hc' => hw.unique (hcarried hc) (hcarried hc'), fun e he => ?_, ?_,
    fun hx => hw.state (hthin.handles _ _ hx)⟩
  · obtain ⟨x, hx, hb⟩ := hw.carried (hcarried hc)
    exact ⟨x, handle?_release hx (mem_references_of_carried hc), hb⟩
  · obtain ⟨x, hx, hu⟩ := hw.named e (hthin.names ▸ he)
    exact ⟨x, handle?_release hx (mem_references_of_named he), hu⟩
  · rw [hthin.names]
    exact hw.distinct

/-- An unbound handle may get a name. -/
theorem Orderly.naming (hw : w.Orderly) {id : HandleId} {x : Handle} (name : String)
    (hx : w.handle? id = some x) (hu : x.state = .unbound) (hn : ∀ e ∈ w.roots.handles, e.2 ≠ id) :
    (w.naming name id).Orderly := by
  have hput {e} (he : e ∈ w.roots.handles.put name id) : e ∈ w.roots.handles ∨ e = (name, id) := by
    rw [Names.put] at he
    split at he
    · obtain ⟨e', he', rfl⟩ := List.mem_map.1 he
      split
      · exact .inr rfl
      · exact .inl he'
    · exact (List.mem_append.1 he).imp_right List.mem_singleton.1
  refine ⟨hw.carried, hw.unique, fun e he => ?_, fun e he e' he' h => ?_, hw.state⟩
  · obtain he | rfl := hput he
    · exact hw.named e he
    · exact ⟨x, hx, hu⟩
  · obtain he | rfl := hput he
    · obtain he' | rfl := hput he'
      · exact hw.distinct e he e' he' h
      · exact absurd h (hn e he)
    · obtain he' | rfl := hput he'
      · exact absurd h.symm (hn e' he')
      · rfl

/-- Who carries a handle after an object was wrapped: those before, and the object that was given it. -/
theorem carried_wrapping {id : HandleId} {obj obj' : ObjectId} {data : Attachment}
    (hc : (w.wrapping obj data).Carried id obj') :
    w.Carried id obj' ∨ obj' = obj ∧ data = .handle id := by
  obtain ⟨o, ho, ha⟩ := hc
  rw [object?, wrapping, Store.get?_modify] at ho
  split at ho
  · next h =>
    obtain ⟨o', -, rfl⟩ := Option.map_eq_some_iff.1 ho
    exact .inr ⟨ObjectId.index_inj.1 h, Option.some.inj ha⟩
  · exact .inl ⟨o, ho, ha⟩

/-- To give an object plain data leaves the handles in order. -/
theorem Orderly.wrapping (hw : w.Orderly) (obj : ObjectId) (data : Script.Payload) :
    (w.wrapping obj (.plain data)).Orderly := by
  have hcarried {id obj'} (hc : (w.wrapping obj (.plain data)).Carried id obj') : w.Carried id obj' :=
    (carried_wrapping hc).resolve_right fun h => nomatch h.2
  exact ⟨fun hc => hw.carried (hcarried hc), fun hc hc' => hw.unique (hcarried hc) (hcarried hc'),
    hw.named, hw.distinct, hw.state⟩

/-- A handle that is bound, as its own and as the others see it. -/
theorem handle?_binding (w : World) (id other : HandleId) (obj : ObjectId) :
    (w.binding id obj).handle? other =
      if other = id then (w.handle? other).map ({ · with state := .bound }) else w.handle? other := by
  rw [handle?, binding, Store.get?_modify]
  simp only [HandleId.index_inj]
  rfl

/-- **To bind an unbound handle** leaves the handles in order. -/
theorem Orderly.binding (hw : w.Orderly) {id : HandleId} {x : Handle} (obj : ObjectId)
    (hx : w.handle? id = some x) (hu : x.state = .unbound) (hn : ∀ e ∈ w.roots.handles, e.2 ≠ id) :
    (w.binding id obj).Orderly := by
  have hbound : (w.binding id obj).handle? id = some { x with state := .bound } := by
    rw [handle?_binding, if_pos rfl, hx]
    rfl
  have hcarried {h obj'} (hc : (w.binding id obj).Carried h obj') :
      h ≠ id ∧ w.Carried h obj' ∨ obj' = obj ∧ h = id := by
    have hwrap : (w.wrapping obj (.handle id)).Carried h obj' := hc
    obtain hold | ⟨ho, hd⟩ := carried_wrapping hwrap
    · refine .inl ⟨fun he => ?_, hold⟩
      subst he
      exact hw.not_carried hx hu obj' hold
    · cases hd
      exact .inr ⟨ho, rfl⟩
  refine ⟨fun hc => ?_, fun hc hc' => ?_, fun e he => ?_, hw.distinct, fun {h y} hy => ?_⟩
  · obtain ⟨hne, hc⟩ | ⟨-, rfl⟩ := hcarried hc
    · rw [handle?_binding, if_neg hne]
      exact hw.carried hc
    · exact ⟨_, hbound, rfl⟩
  · obtain ⟨hne, hc⟩ | ⟨rfl, rfl⟩ := hcarried hc
    · obtain ⟨-, hc'⟩ | ⟨-, he⟩ := hcarried hc'
      · exact hw.unique hc hc'
      · exact absurd he hne
    · obtain ⟨hne, -⟩ | ⟨rfl, -⟩ := hcarried hc'
      · exact absurd rfl hne
      · rfl
  · rw [handle?_binding, if_neg (hn e he)]
    exact hw.named e he
  · rw [handle?_binding] at hy
    split at hy
    · obtain ⟨y', -, rfl⟩ := Option.map_eq_some_iff.1 hy
      exact nofun
    · exact hw.state hy

/-- **Every edit leaves the handles in order**. -/
theorem Edit.orderly (h : Edit w w') (hw : w.Orderly) : w'.Orderly := by
  cases h with
  | still h => exact h.orderly hw
  | name name hx hu hn => exact hw.naming name hx hu hn
  | wrap data ho ha => exact hw.wrapping _ data
  | bind hx hu hn ho ha hc => exact hw.binding _ hx hu hn
  | release fs => exact hw.release fs

/-- **An object carries a handle that is bound**, no other object carries the same, and handles with a
name are not bound yet. -/
theorem Edits.orderly (h : Edits w w') (hw : w.Orderly) : w'.Orderly := by
  induction h with
  | refl => exact hw
  | tail _ h ih => exact h.orderly ih

/-- An object carries a handle that it carried before, or one that was unbound. -/
theorem Edit.carried (h : Edit w w') {id : HandleId} {obj : ObjectId} (hc : w'.Carried id obj) :
    w.Carried id obj ∨ ∃ x, w.handle? id = some x ∧ x.state = .unbound := by
  cases h with
  | still h => exact .inl (h.carried hc)
  | name name hx hu hn => exact .inl hc
  | wrap data ho ha => exact .inl ((carried_wrapping hc).resolve_right fun h => nomatch h.2)
  | @bind id' x obj' o hx hu hn ho ha hown =>
    have hwrap : (w.wrapping obj' (.handle id')).Carried id obj := hc
    obtain hc | ⟨-, hd⟩ := carried_wrapping hwrap
    · exact .inl hc
    · cases hd
      exact .inr ⟨x, hx, hu⟩
  | release fs =>
    obtain ⟨o, ho, ha⟩ := hc
    exact .inl ⟨o, (Thins.release w fs).objects _ _ ho, ha⟩

/-- **A handle that is bound** is carried by the same object from then on. -/
theorem Edits.carried (h : Edits w w') {id : HandleId} {obj : ObjectId} {x : Handle}
    (hx : w.handle? id = some x) (hb : x.state = .bound) (hc : w'.Carried id obj) : w.Carried id obj := by
  induction h with
  | refl => exact hc
  | tail hu h ih =>
    obtain hc | ⟨y, hy, hunbound⟩ := h.carried hc
    · exact ih hc
    · obtain ⟨x', hx', hadv⟩ := (Edits.follows hu).handles.old (Store.lt_next_of_get? hx) hy
      cases hx.symm.trans hx'
      have hrank := hadv.rank_le
      rw [hb, hunbound] at hrank
      exact absurd hrank (Nat.not_succ_le_zero 0)

/-! ## How things go -/

end World

end Isthmus
