import Isthmus.Proofs.Lifetime.Handles

/-!
# Proofs/Lifetime/Reserved — instances that one handle has to itself

An instance is reserved for a handle when no other handle and no native value in the world refers to it
(`World.Reserved`).  Foreign objects refer to instances through handles only, so nothing else can.  A
background count works on its instance without a share in it and may go on.

* `World.Reserved.destroy`, `World.Reserved.release` — what goes takes no reservation with it.
* `World.Reserved.count_eq_one` — the one owner of a reserved instance that is not being counted is its handle.
* `World.Reserved.gone` — the instance goes when the handle does.
-/

namespace Isthmus

/-! ## Stores -/

namespace Store

variable {α : Type} {P : α → Prop} {s : Store α} {key : Nat}

/-- Everything in the store is as said. -/
def All (P : α → Prop) (s : Store α) : Prop :=
  ∀ key a, s.get? key = some a → P a

/-- What holds of all entries of a store, holds in weaker form. -/
theorem All.mono {Q : α → Prop} (h : s.All P) (hpq : ∀ a, P a → Q a) : s.All Q :=
  fun key a ha => hpq a (h key a ha)

/-- A new entry has to fulfil it. -/
theorem All.insert (h : s.All P) {a : α} (ha : P a) : (s.insert a).All P := by
  intro k b hb
  rw [get?_insert] at hb
  split at hb
  · cases hb
    exact ha
  · exact h k b hb

/-- So has what an entry is changed into. -/
theorem All.modify (h : s.All P) {f : α → α} (hf : ∀ a, P a → P (f a)) : (s.modify key f).All P := by
  intro k b hb
  rw [get?_modify] at hb
  split at hb
  · obtain ⟨a, ha, rfl⟩ := Option.map_eq_some_iff.1 hb
    exact hf a (h _ a ha)
  · exact h k b hb

/-- What goes need not. -/
theorem All.erase (h : s.All P) (key : Nat) : (s.erase key).All P := by
  intro k b hb
  rw [get?_erase] at hb
  split at hb
  · cases hb
  · exact h k b hb

/-- References are counted entry by entry. -/
theorem count_flatMap {f : α → List Ref} {r : Ref} (s : Store α) :
    (s.values.flatMap f).count r = s.total fun a => (f a).count r := by
  rw [values, total]
  induction s.entries with
  | nil => rfl
  | cons e entries ih => rw [List.map_cons, List.flatMap_cons, List.count_append, ih, List.foldr_cons]

/-- A total of nothing is nothing. -/
theorem total_eq_zero {f : α → Nat} (h : s.All (f · = 0)) : s.total f = 0 := by
  refine Nat.eq_zero_of_not_pos fun hpos => ?_
  obtain ⟨key, a, ha, hc⟩ := exists_of_total_pos hpos
  exact Nat.ne_of_gt hc (h key a ha)

/-- What no entry refers to is not among the references. -/
theorem All.notMem_flatMap {f : α → List Ref} {r : Ref} (h : s.All (r ∉ f ·)) :
    r ∉ s.values.flatMap f := by
  intro hr
  obtain ⟨a, ha, hr⟩ := List.mem_flatMap.1 hr
  obtain ⟨k, hk⟩ := mem_values.1 ha
  exact h k a hk hr

end Store

/-! ## Code -/

/-- The function is one of a generated class, or the console's. -/
def Callback.isNative : Callback → Bool
  | .member .. | .consoleError => true
  | _ => false

/-- The getter or setter is one of a generated class. -/
def Accessor.isNative : Accessor → Bool
  | .reader _ | .writer _ => true
  | .stock _ => false

/-- The property runs native code only. -/
def Property.isNative : Property → Bool
  | .data .. => true
  | .accessor getter setter _ _ => getter.all Accessor.isNative && setter.all Accessor.isNative

/-- An accessor is native if the code it calls is. -/
theorem Accessor.isNative_callback (a : Accessor) : a.callback.isNative = a.isNative := by
  cases a <;> rfl

/-- Calling the object or reading and writing its properties runs native code only. -/
structure Object.RunsNative (o : Object) : Prop where
  code : ∀ {name code data}, o.kind = .function name code data → code.isNative
  properties : ∀ e ∈ o.properties, e.2.isNative

/-- An object with one property more runs native code as before. -/
theorem Object.RunsNative.put {o : Object} (h : o.RunsNative) {name : String} {p : Property}
    (hp : p.isNative) : (o.put name p).RunsNative where
  code := h.code
  properties := by
    intro e he
    rw [Object.put] at he
    dsimp only at he
    split at he
    · obtain ⟨e', he', rfl⟩ := List.mem_map.1 he
      split
      · exact hp
      · exact h.properties e' he'
    · obtain he | he := List.mem_append.1 he
      · exact h.properties e he
      · rw [List.mem_singleton.1 he]
        exact hp

/-! ## Reservations -/

/-- Which handles have which instances to themselves, and foreign objects that lead to none of these. -/
structure Reserve where
  owner : HandleId → InstanceId → Prop
  apart : ObjectId → Prop

namespace Reserve

/-- The references include no reserved instance. -/
def Free (x : Reserve) (refs : List Ref) : Prop :=
  ∀ h i, x.owner h i → .inst i ∉ refs

/-- No handle has the instance to itself. -/
def Spare (x : Reserve) (i : InstanceId) : Prop :=
  ∀ h, ¬ x.owner h i

/-- The value does not lead to a reserved instance. -/
def Apart (x : Reserve) : ForeignValue → Prop
  | .object id => x.apart id
  | _ => True

/-- An object that does not lead to a reserved instance: it carries no handle that has one to itself, and
neither do the items of an array. -/
structure Clears (x : Reserve) (o : Object) : Prop where
  attachment : ∀ h i, x.owner h i → o.attachment ≠ some (.handle h)
  items : ∀ items, o.kind = .array items → ∀ v ∈ items, x.Apart v

/-- The instance is reserved for the handle as well, and no object is known to be apart. -/
def adding (x : Reserve) (id : HandleId) (inst : InstanceId) : Reserve where
  owner h i := x.owner h i ∨ h = id ∧ i = inst
  apart _ := False

/-- A background count of an instance may go on, but no other work has a share in a reserved one. -/
def Tolerates (x : Reserve) : Job → Prop
  | .count .. => True
  | job => x.Free job.refs

end Reserve

/-- The reservations stand, no other handle is bound exclusively, and all code is native. -/
structure World.Reserved (w : World) (x : Reserve) : Prop where
  known : ∀ h i, x.owner h i → h.index < w.handles.next ∧ i.index < w.instances.next
  handles : ∀ id y, w.handle? id = some y → ∀ h, x.owner h y.inst → id = h
  owners : ∀ id y i, w.handle? id = some y → x.owner id i → y.inst = i ∧ y.ownership = .exclusive
  exclusive : ∀ id y, w.handle? id = some y → y.state = .bound → y.ownership = .exclusive →
    x.owner id y.inst
  instances : w.instances.All fun n => x.Free n.refs
  deferreds : w.deferreds.All fun d => x.Free d.value.refs
  queues : w.loops.All fun l => ∀ wake ∈ l.queue, x.Free wake.refs
  delivering : ∀ e ∈ w.delivering, x.Free e.2.refs
  errands : ∀ e ∈ w.errands, x.Free e.refs
  jobs : ∀ job ∈ w.jobs, x.Tolerates job
  natives : ∀ e ∈ w.roots.natives, x.Free e.2.refs
  held : x.Free w.held.flatten
  objects : w.objects.All Object.RunsNative
  apart_lt : ∀ id, x.apart id → id.index < w.objects.next
  apart : ∀ id o, x.apart id → w.object? id = some o → x.Clears o

/-! ## References that are none -/

/-- A foreign value refers to objects only. -/
theorem ForeignValue.inst_notMem_refs (v : ForeignValue) (i : InstanceId) : .inst i ∉ v.refs := by
  cases v <;> simp [ForeignValue.refs]

namespace Reserve

variable {x : Reserve} {refs : List Ref}

/-- No references are free of reserved instances. -/
theorem free_nil : x.Free [] :=
  fun _ _ _ => List.not_mem_nil

/-- References are free if both parts are. -/
theorem free_append {more : List Ref} : x.Free (refs ++ more) ↔ x.Free refs ∧ x.Free more := by
  simp only [Free, List.mem_append, not_or, forall_and]

theorem free_cons {r : Ref} : x.Free (r :: refs) ↔ x.Free [r] ∧ x.Free refs := by
  rw [← List.singleton_append, free_append]

/-- So it is with what the items of a list refer to. -/
theorem free_flatMap {α : Type} {f : α → List Ref} {as : List α} :
    x.Free (as.flatMap f) ↔ ∀ a ∈ as, x.Free (f a) := by
  simp only [Free, List.mem_flatMap, not_exists, not_and]
  exact ⟨fun h a ha i j hij => h i j hij a ha, fun h i j hij a ha => h a ha i j hij⟩

theorem free_refsOf {α : Type} {f : α → List Ref} {a : Option α} :
    x.Free (refsOf f a) ↔ ∀ b, a = some b → x.Free (f b) := by
  cases a with
  | none => exact iff_of_true free_nil (fun _ h => nomatch h)
  | some b => exact ⟨fun h _ hb => Option.some.inj hb ▸ h, fun h => h b rfl⟩

/-- References to other things than instances. -/
theorem free_of_forall (h : ∀ i, .inst i ∉ refs) : x.Free refs :=
  fun _ i _ => h i

/-- An object refers to its instance. -/
theorem free_inst {t : TypeId} {i : InstanceId} : x.Free (NativeValue.object t i).refs ↔ x.Spare i := by
  refine ⟨fun h id hid => h id i hid (List.mem_singleton_self _), fun h id j hj hr => ?_⟩
  cases List.mem_singleton.1 hr
  exact h id hj

/-- A list refers to what its items refer to. -/
theorem free_items {vs : List NativeValue} :
    x.Free (NativeValue.refsIn vs) ↔ ∀ v ∈ vs, x.Free v.refs := by
  rw [NativeValue.refsIn_eq_flatMap, free_flatMap]

/-- A foreign value refers to objects, never to instances. -/
theorem free_foreign (v : ForeignValue) : x.Free v.refs :=
  free_of_forall v.inst_notMem_refs

end Reserve

/-- No object refers to an instance but through a handle. -/
theorem Object.inst_notMem_refs (o : Object) (i : InstanceId) : .inst i ∉ o.refs := by
  rw [Object.refs, Object.contents, List.mem_append, List.mem_append, List.mem_append]
  rintro (h | (h | h) | h)
  · rcases ha : o.attachment with _ | _ | _ <;> simp [ha, refsOf, Attachment.refs] at h
  · cases hk : o.kind with
    | array items => simp [hk, ObjectKind.refs, ForeignValue.inst_notMem_refs] at h
    | promise state => cases state <;> simp [hk, ObjectKind.refs, PromiseState.refs, ForeignValue.inst_notMem_refs] at h
    | _ => simp [hk, ObjectKind.refs] at h
  · cases hp : o.prototype <;> simp [hp, refsOf] at h
  · obtain ⟨e, -, h⟩ := List.mem_flatMap.1 h
    cases hp : e.2 with
    | data v _ _ => exact v.inst_notMem_refs i (by rwa [hp] at h)
    | accessor _ _ _ _ => simp [hp, Property.refs] at h

/-! ## What reservations depend on -/

/-- What reservations depend on. -/
def World.sharing (w : World) :=
  (w.objects, w.handles, w.instances, w.deferreds, w.loops, w.delivering, w.errands, w.jobs,
    w.roots.natives, w.held)

/-- The reservations that stood in the one world stand in the other. -/
def Reserve.Stands (x : Reserve) (w w' : World) : Prop :=
  w.Reserved x → w'.Reserved x

instance (x : Reserve) : IsPreorder World x.Stands where
  refl _ h := h
  trans _ _ _ h h' hw := h' (h hw)

/-- Background work is not let go of by a release. -/
theorem World.release_jobs (w : World) (fs : List Farewell) : (w.release fs).jobs = w.jobs := by
  have hpost (w : World) (cx : ContextId) (wake : Wake) : (w.post cx wake).1.jobs = w.jobs := by
    rw [World.post]
    split <;> rfl
  refine World.release_induction (R := fun w w' => w'.jobs = w.jobs) (fun _ _ => rfl) (fun w r _ => ?_) w fs
  have hd := w.destroys r
  generalize (w.destroy r).1 = w' at hd
  cases hd with
  | channels =>
    rw [World.prune]
    split <;> rfl
  | abandoned => exact hpost _ _ _
  | _ => rfl

namespace World.Reserved

variable {w w' : World} {x : Reserve}

/-- **Reservations depend on who shares what**, and on nothing else. -/
theorem of_eq (h : w.Reserved x) (he : w'.sharing = w.sharing) : w'.Reserved x := by
  simp only [sharing, Prod.mk.injEq] at he
  obtain ⟨ho, hh, hi, hd, hl, hdelivering, herrands, hj, hn, hheld⟩ := he
  exact
    { known := hh ▸ hi ▸ h.known
      handles := fun id y hy => h.handles id y (by rwa [World.handle?, hh] at hy)
      owners := fun id y i hy => h.owners id y i (by rwa [World.handle?, hh] at hy)
      exclusive := fun id y hy => h.exclusive id y (by rwa [World.handle?, hh] at hy)
      instances := hi ▸ h.instances
      deferreds := hd ▸ h.deferreds
      queues := hl ▸ h.queues
      delivering := hdelivering ▸ h.delivering
      errands := herrands ▸ h.errands
      jobs := hj ▸ h.jobs
      natives := hn ▸ h.natives
      held := hheld ▸ h.held
      objects := ho ▸ h.objects
      apart_lt := ho ▸ h.apart_lt
      apart := fun id o hid ho' => h.apart id o hid (by rwa [World.object?, ho] at ho') }

/-! ## Objects and instances -/

/-- An object may come if it runs native code and nothing else. -/
theorem addObject (h : w.Reserved x) {o : Object} (ho : o.RunsNative) :
    { w with objects := w.objects.insert o }.Reserved x :=
  { h with
    objects := h.objects.insert ho
    apart_lt := fun id hid => Nat.lt_succ_of_lt (h.apart_lt id hid)
    apart := by
      intro id o' hid ho'
      rw [World.object?, Store.get?_insert, if_neg (Nat.ne_of_lt (h.apart_lt id hid))] at ho'
      exact h.apart id o' hid ho' }

/-- An object may change if it leaves reserved objects clear. -/
theorem changeObject (h : w.Reserved x) {id : ObjectId} {f : Object → Object}
    (hf : ∀ o, o.RunsNative → (f o).RunsNative) (hc : ∀ o, x.apart id → x.Clears o → x.Clears (f o)) :
    { w with objects := w.objects.modify id.index f }.Reserved x :=
  { h with
    objects := h.objects.modify hf
    apart := by
      intro id' o' hid ho'
      rw [World.object?, Store.get?_modify] at ho'
      split at ho'
      · next hk =>
        obtain rfl := ObjectId.index_inj.1 hk
        obtain ⟨o, ho, rfl⟩ := Option.map_eq_some_iff.1 ho'
        exact hc o hid (h.apart id' o hid ho)
      · exact h.apart id' o' hid ho' }

/-- An instance may come if it refers to no reserved one. -/
theorem addInstance (h : w.Reserved x) {n : Instance} (hn : x.Free n.refs) :
    { w with instances := w.instances.insert n }.Reserved x :=
  { h with
    known := fun i j hij => ⟨(h.known i j hij).1, Nat.lt_succ_of_lt (h.known i j hij).2⟩
    instances := h.instances.insert hn }

/-- An instance that is made now is not reserved. -/
theorem spare_new (h : w.Reserved x) : x.Spare ⟨w.instances.next⟩ :=
  fun i hi => Nat.lt_irrefl _ (h.known i _ hi).2

/-- An instance may change into one that refers to no reserved one. -/
theorem changeInstance (h : w.Reserved x) {id : InstanceId} {n : Instance} (hn : x.Free n.refs) :
    { w with instances := w.instances.modify id.index fun _ => n }.Reserved x :=
  { h with instances := h.instances.modify fun _ _ => hn }

/-! ## Handles -/

/-- A handle that is made now is not bound. -/
theorem addHandle (h : w.Reserved x) {cls : ClassKey} {inst : InstanceId} (ownership : Ownership)
    (hi : x.Spare inst) :
    { w with handles := w.handles.insert { cls, inst, ownership } }.Reserved x :=
  { h with
    known := fun i j hij => ⟨Nat.lt_succ_of_lt (h.known i j hij).1, (h.known i j hij).2⟩
    handles := by
      intro id y hy i hij
      rw [World.handle?, Store.get?_insert] at hy
      split at hy
      · cases hy
        exact absurd hij (hi i)
      · exact h.handles id y hy i hij
    owners := by
      intro id y i hy hij
      rw [World.handle?, Store.get?_insert, if_neg (Nat.ne_of_lt (h.known id i hij).1)] at hy
      exact h.owners id y i hy hij
    exclusive := by
      intro id y hy hs ho
      rw [World.handle?, Store.get?_insert] at hy
      split at hy
      · cases hy
        cases hs
      · exact h.exclusive id y hy hs ho }

/-- A handle may change its state if it is bound only for its own reservation. -/
theorem changeHandle (h : w.Reserved x) {id : HandleId} {f : Handle → Handle}
    (hf : ∀ y, w.handle? id = some y → (f y).inst = y.inst ∧ (f y).ownership = y.ownership ∧
      ((f y).state = .bound → y.ownership = .exclusive → x.owner id y.inst)) :
    { w with handles := w.handles.modify id.index f }.Reserved x := by
  have hget {id' y'} (hy : { w with handles := w.handles.modify id.index f }.handle? id' = some y') :
      w.handle? id' = some y' ∨ id' = id ∧ ∃ y, w.handle? id = some y ∧ f y = y' := by
    rw [World.handle?, Store.get?_modify] at hy
    split at hy
    · next hk =>
      rw [HandleId.index_inj.1 hk] at hy ⊢
      exact .inr ⟨rfl, Option.map_eq_some_iff.1 hy⟩
    · exact .inl hy
  refine { h with
    handles := fun id' y' hy => ?_
    owners := fun id' y' i hy => ?_
    exclusive := fun id' y' hy => ?_ }
  · obtain hy | ⟨rfl, y, hold, rfl⟩ := hget hy
    · exact h.handles id' y' hy
    · rw [(hf y hold).1]
      exact h.handles id' y hold
  · obtain hy | ⟨rfl, y, hold, rfl⟩ := hget hy
    · exact h.owners id' y' i hy
    · rw [(hf y hold).1, (hf y hold).2.1]
      exact h.owners id' y i hold
  · obtain hy | ⟨rfl, y, hold, rfl⟩ := hget hy
    · exact h.exclusive id' y' hy
    · rw [(hf y hold).1, (hf y hold).2.1]
      exact (hf y hold).2.2

/-- A handle is bound that is shared or has its instance to itself. -/
theorem binding (h : w.Reserved x) {id : HandleId} {y : Handle} (hy : w.handle? id = some y)
    (ho : y.ownership = .exclusive → x.owner id y.inst)
    (ha : ∀ obj, x.apart obj → ∀ i, ¬ x.owner id i) (obj : ObjectId) : (w.binding id obj).Reserved x := by
  have hwrap : (w.wrapping obj (.handle id)).Reserved x := by
    refine h.changeObject (fun o ho => ⟨ho.code, ho.properties⟩) fun o hobj hc => ⟨fun i j hij he => ?_, hc.items⟩
    cases he
    exact ha obj hobj j hij
  refine hwrap.changeHandle fun y' hy' => ?_
  obtain rfl : y = y' := Option.some.inj (hy.symm.trans hy')
  exact ⟨rfl, rfl, fun _ => ho⟩

/-! ## Deferreds, loops and background work -/

theorem newDeferred (h : w.Reserved x) : w.newDeferred.Reserved x :=
  { h with deferreds := h.deferreds.insert Reserve.free_nil }

/-- A deferred may get a value that refers to no reserved instance. -/
theorem changeDeferred (h : w.Reserved x) {id : DeferredId} {d : Deferred Settlement}
    (hd : x.Free d.value.refs) :
    { w with deferreds := w.deferreds.modify id.index fun _ => d }.Reserved x :=
  { h with deferreds := h.deferreds.modify fun _ _ => hd }

/-- A loop may queue wakes that refer to none. -/
theorem changeLoop (h : w.Reserved x) {cx : ContextId} {f : Loop → Loop}
    (hf : ∀ l, ∀ wake ∈ (f l).queue, wake ∈ l.queue ∨ x.Free wake.refs) :
    { w with loops := w.loops.modify cx.index f }.Reserved x :=
  { h with
    queues := h.queues.modify fun l hl wake hwake => (hf l wake hwake).elim (hl wake) id }

/-- A new context shares nothing. -/
theorem openContext (h : w.Reserved x) (global : ObjectId) : (w.openContext global).Reserved x :=
  { h with queues := h.queues.insert fun _ hwake => nomatch hwake }

theorem register (h : w.Reserved x) (cx : ContextId) : (w.register cx).Reserved x :=
  h.changeLoop fun _ _ => .inl

theorem unregister (h : w.Reserved x) (cx : ContextId) : (w.unregister cx).Reserved x :=
  h.changeLoop fun _ _ => .inl

/-- A wake may be queued that refers to no reserved instance. -/
theorem post (h : w.Reserved x) (cx : ContextId) {wake : Wake} (hwake : x.Free wake.refs) :
    (w.post cx wake).1.Reserved x := by
  rw [World.post]
  split
  · have hqueued : { w with
        loops := w.loops.modify cx.index fun l => { l with queue := l.queue ++ [wake] } }.Reserved x := by
      refine h.changeLoop fun l wake' hw => (List.mem_append.1 hw).imp_right fun hw => ?_
      rw [List.mem_singleton.1 hw]
      exact hwake
    exact hqueued.of_eq rfl
  · exact h.unregister cx

theorem send (h : w.Reserved x) (cx : ContextId) {wake : Wake} (hwake : x.Free wake.refs) :
    (w.send cx wake).1.Reserved x :=
  (h.register cx).post cx hwake

/-- Threads may be about to do what refers to none. -/
theorem changeErrands (h : w.Reserved x) {errands : List Errand} (he : ∀ e ∈ errands, x.Free e.refs) :
    { w with errands }.Reserved x :=
  { h with errands := he }

/-- Queueing the wake of an errand, where it is the first one. -/
theorem launch (h : w.Reserved x) (cx : ContextId) {after : List Errand} {wake : Wake}
    (hafter : ∀ e ∈ after, x.Free e.refs) (hwake : x.Free wake.refs) :
    (w.launch [] after cx wake).1.Reserved x := by
  have hleft : { w with errands := [] ++ after }.Reserved x := h.changeErrands hafter
  rw [World.launch]
  split
  · exact hleft.post cx hwake
  · have hdropped : { w with
        errands := [] ++ after
        history := .dropped cx wake :: w.history }.Reserved x := hleft.of_eq rfl
    exact hdropped.unregister cx

/-- An event may be fired with arguments that refer to none. -/
theorem fire (h : w.Reserved x) (id : ChannelsId) (event : Nat) {args : List NativeValue}
    (hargs : ∀ v ∈ args, x.Free v.refs) : (w.fire id event args).1.Reserved x := by
  have hfree := Reserve.free_items.2 hargs
  rw [World.fire]
  split
  · next cx token _ =>
    have haimed : (w.aim cx token args).Reserved x := by
      refine { h with errands := fun e he => ?_ }
      obtain rfl | he := List.mem_cons.1 he
      · exact hfree
      · exact h.errands e he
    have harmed : ((w.aim cx token args).arm [] w.errands cx (.event token args)).Reserved x := by
      refine (haimed.changeErrands fun e he => ?_).register cx
      obtain rfl | he := List.mem_cons.1 he
      · exact hfree
      · exact h.errands e he
    exact harmed.launch cx h.errands hfree
  · exact h

/-- A deferred may be completed with a value that refers to none. -/
theorem complete (h : w.Reserved x) {id status v w' more} (hv : x.Free v.refs)
    (hc : w.complete id status v = some (w', more)) : w'.Reserved x := by
  have hfulfil : (w.fulfil id { status, value := v } status v).Reserved x :=
    (h.changeDeferred (d := { status, value := v }) hv).of_eq rfl
  obtain ⟨d, -, -, -, rfl⟩ := World.complete_cases hc
  split
  · exact hfulfil.launch _ h.errands hv
  · exact hfulfil

/-- A deferred may be converted. -/
theorem promise (h : w.Reserved x) (cx : ContextId) (home : InstallationId) (slot : Nat) {id d}
    (hd : w.deferred? id = some d) : (w.promise cx home slot id d).1.Reserved x := by
  have hpark : (w.park cx home slot id).Reserved x :=
    (h.addObject (o := { context := cx, kind := .promise (.pending []) })
      ⟨nofun, nofun⟩).of_eq rfl
  have hvalue := h.deferreds _ d hd
  have hwait : ((w.park cx home slot id).waitFor id d ⟨cx, slot⟩).Reserved x :=
    hpark.changeDeferred hvalue
  rw [World.promise]
  obtain ⟨-, -, he⟩ | ⟨-, old, -, he⟩ | ⟨-, he⟩ :=
    World.await_cases (w := w.park cx home slot id) hd ⟨cx, slot⟩
  · rw [he]
    exact hwait.register cx
  · rw [he]
    exact (hwait.register cx).unregister _
  · rw [he]
    exact hpark.send cx hvalue

/-- A job may be submitted that tolerates the reservations. -/
theorem addJob (h : w.Reserved x) {job : Job} (hjob : x.Tolerates job) :
    { w with jobs := w.jobs ++ [job] }.Reserved x :=
  { h with
    jobs := by
      intro job' hj
      obtain hj | hj := List.mem_append.1 hj
      · exact h.jobs job' hj
      · rw [List.mem_singleton.1 hj]
        exact hjob }

theorem dropJob (h : w.Reserved x) : { w with jobs := w.jobs.tail }.Reserved x :=
  { h with jobs := fun job hj => h.jobs job (List.mem_of_mem_tail hj) }

/-! ## What is held -/

/-- What is held may change to what is free of reserved instances. -/
theorem changeHeld (h : w.Reserved x) {held : List (List Ref)} (hf : x.Free held.flatten) :
    { w with held }.Reserved x :=
  { h with held := hf }

theorem holding (h : w.Reserved x) {refs : List Ref} (hr : x.Free refs) :
    (w.holding refs).Reserved x := by
  refine h.changeHeld ?_
  have hheld := h.held
  split
  · next frame outer he =>
    rw [he, List.flatten_cons, Reserve.free_append] at hheld
    rw [List.flatten_cons, Reserve.free_append, Reserve.free_append]
    exact ⟨⟨hr, hheld.1⟩, hheld.2⟩
  · rw [List.flatten_singleton]
    exact hr

/-! ## Letting go -/

/-- What goes takes no reservation with it. -/
theorem destroy (h : w.Reserved x) (r : Ref) : (w.destroy r).1.Reserved x := by
  have hd := w.destroys r
  generalize (w.destroy r).1 = w' at hd
  have herase {α : Type} {s : Store α} {key other : Nat} {a : α} (ha : (s.erase key).get? other = some a) :
      s.get? other = some a := by
    rw [Store.get?_erase] at ha
    split at ha
    · cases ha
    · exact ha
  cases hd with
  | gone => exact h
  | object =>
    exact { h with
      objects := h.objects.erase _
      apart := fun id o hid ho => h.apart id o hid (herase ho) }
  | handle =>
    exact { h with
      handles := fun id y hy => h.handles id y (herase hy)
      owners := fun id y i hy => h.owners id y i (herase hy)
      exclusive := fun id y hy => h.exclusive id y (herase hy) }
  | inst => exact { h with instances := h.instances.erase _ }
  | source => exact h.of_eq rfl
  | storage => exact h.of_eq rfl
  | installation => exact h.of_eq rfl
  | channels hc =>
    refine h.of_eq ?_
    rw [World.prune]
    split <;> rfl
  | deferred hd ha => exact { h with deferreds := h.deferreds.erase _ }
  | @abandoned id _ _ hd ha =>
    have hexpire : (w.expire id).Reserved x := { h with deferreds := h.deferreds.erase _ }
    exact hexpire.post _ Reserve.free_nil

/-- **Letting go keeps reservations**: nobody gets what others give up. -/
theorem release (h : w.Reserved x) (fs : List Farewell) : (w.release fs).Reserved x :=
  World.release_induction (R := x.Stands) (fun _ _ h => h.of_eq rfl) (fun _ r _ h => h.destroy r) w fs h

/-! ## Owners -/

/-- **The owners of a reserved instance** are handles and background counts. -/
theorem count_inst (h : w.Reserved x) {id : HandleId} {i : InstanceId} (ho : x.owner id i) :
    w.count (.inst i) = w.handles.total (·.refs.count (.inst i)) +
      (w.jobs.flatMap Job.refs).count (.inst i) := by
  have hzero {l : List Ref} (hl : .inst i ∉ l) : l.count (.inst i) = 0 := List.count_eq_zero.2 hl
  have hstore {α : Type} {s : Store α} {f : α → List Ref} (hs : s.All fun a => .inst i ∉ f a) :
      (s.values.flatMap f).count (.inst i) = 0 := hzero hs.notMem_flatMap
  have hnatives : .inst i ∉ w.roots.natives.flatMap (·.2.refs) :=
    Reserve.free_flatMap.2 h.natives id i ho
  have hroots : .inst i ∉ w.roots.refs := by
    simp [Roots.refs, hnatives, ForeignValue.inst_notMem_refs]
  have hinstallation (n : Installation) : .inst i ∉ n.refs := by
    simp [Installation.refs, ForeignValue.inst_notMem_refs]
  have hcontext (c : Context) : .inst i ∉ c.refs := by
    rcases hd : c.data with _ | _ | _ <;> cases he : c.exported <;> simp [Context.refs, hd, he, refsOf]
  have hqueue (l : Loop) (hl : ∀ wake ∈ l.queue, x.Free wake.refs) :
      .inst i ∉ l.queue.flatMap Wake.refs := Reserve.free_flatMap.2 hl id i ho
  have herrands := Reserve.free_flatMap.2 h.errands id i ho
  simp only [World.count, World.references, List.count_append, hzero hroots, hzero herrands, hzero (h.held id i ho),
    hstore (f := Object.refs) fun _ o _ => o.inst_notMem_refs i, Store.count_flatMap w.handles, hstore (h.instances.mono fun _ hn => hn id i ho),
    hstore (h.deferreds.mono fun _ hd => hd id i ho),
    hstore (f := Channels.refs) fun _ _ _ => by simp [Channels.refs],
    hstore (f := Installation.refs) fun _ n _ => hinstallation n, hstore (f := Context.refs) fun _ c _ => hcontext c,
    hstore (h.queues.mono hqueue), hzero (Reserve.free_flatMap.2 h.delivering id i ho)]
  omega

/-- Of all handles only the owner refers to a reserved instance. -/
theorem count_refs (h : w.Reserved x) {id k : HandleId} {y : Handle} {i : InstanceId}
    (ho : x.owner id i) (hy : w.handle? k = some y) (hne : k ≠ id) : y.refs.count (.inst i) = 0 := by
  rw [List.count_eq_zero, Handle.refs, List.mem_cons, not_or]
  refine ⟨fun he => ?_, by cases y.channels <;> simp [refsOf]⟩
  cases he
  exact hne (h.handles k y hy id ho)

/-- **The handle is the one owner of a reserved instance** that is not being counted. -/
theorem count_eq_one (h : w.Reserved x) {id : HandleId} {y : Handle} (ho : x.owner id y.inst)
    (hy : w.handle? id = some y) (hj : .inst y.inst ∉ w.jobs.flatMap Job.refs) :
    w.count (.inst y.inst) = 1 := by
  have hown : y.refs.count (.inst y.inst) = 1 := by
    rw [Handle.refs, List.count_cons_self, List.count_eq_zero.2]
    cases y.channels <;> simp [refsOf]
  have hothers : (w.handles.erase id.index).total (·.refs.count (.inst y.inst)) = 0 := by
    refine Store.total_eq_zero fun key y' hy' => ?_
    rw [Store.get?_erase] at hy'
    split at hy'
    · cases hy'
    · next hk => exact h.count_refs (k := ⟨key⟩) ho hy' fun he => hk (congrArg HandleId.index he)
  have htotal := Store.total_erase (·.refs.count (.inst y.inst)) hy
  rw [h.count_inst ho, List.count_eq_zero.2 hj]
  omega

/-- **A reserved instance has no owner** when its handle is gone, if it is not being counted. -/
theorem notMem_references (h : w.Reserved x) {id : HandleId} {i : InstanceId} (ho : x.owner id i)
    (hn : w.handle? id = none) (hj : .inst i ∉ w.jobs.flatMap Job.refs) : .inst i ∉ w.references := by
  rw [← List.count_eq_zero]
  have hall : w.handles.total (·.refs.count (.inst i)) = 0 := by
    refine Store.total_eq_zero fun key y hy => h.count_refs (k := ⟨key⟩) ho hy fun he => ?_
    rw [← he] at hn
    cases hn.symm.trans hy
  have hcount := h.count_inst ho
  rw [List.count_eq_zero.2 hj, hall] at hcount
  exact hcount

/-! ## Making reservations -/

/-- A handle refers to its instance. -/
theorem inst_mem_refs (y : Handle) : 0 < y.refs.count (.inst y.inst) :=
  List.count_pos_iff.2 (List.mem_cons_self ..)

/-- **An instance with one owner** can be reserved for that handle. -/
theorem reserve (h : w.Reserved x) {id : HandleId} {y : Handle} (hy : w.handle? id = some y)
    (hi : y.inst.index < w.instances.next) (he : y.ownership = .exclusive)
    (hc : w.count (.inst y.inst) = 1) : w.Reserved (x.adding id y.inst) := by
  have hone : 0 < w.handles.total (·.refs.count (.inst y.inst)) :=
    Nat.lt_of_lt_of_le (inst_mem_refs y) (Store.le_total (·.refs.count (.inst y.inst)) hy)
  simp only [World.count, World.references, List.count_append, Store.count_flatMap w.handles] at hc
  have hzero {l : List Ref} (hl : l.count (.inst y.inst) = 0) : .inst y.inst ∉ l := List.count_eq_zero.1 hl
  have hroots : .inst y.inst ∉ w.roots.refs := hzero (by omega)
  have hheld : .inst y.inst ∉ w.held.flatten := hzero (by omega)
  have hinstances : .inst y.inst ∉ w.instances.values.flatMap Instance.refs := hzero (by omega)
  have hdeferreds : .inst y.inst ∉ w.deferreds.values.flatMap (fun d => d.value.refs) := hzero (by omega)
  have hqueues : .inst y.inst ∉ w.loops.values.flatMap (fun l => l.queue.flatMap Wake.refs) :=
    hzero (by omega)
  have hdelivering : .inst y.inst ∉ w.delivering.flatMap (fun d => d.2.refs) := hzero (by omega)
  have hjobs : .inst y.inst ∉ w.jobs.flatMap Job.refs := hzero (by omega)
  have herrands : .inst y.inst ∉ w.errands.flatMap Errand.refs := hzero (by omega)
  have hfree {l : List Ref} (hx : x.Free l) (hl : .inst y.inst ∉ l) : (x.adding id y.inst).Free l := by
    rintro i j (hij | ⟨rfl, rfl⟩)
    · exact hx i j hij
    · exact hl
  have hmem {α : Type} {f : α → List Ref} {l : List α} {a : α} (hl : .inst y.inst ∉ l.flatMap f)
      (ha : a ∈ l) : .inst y.inst ∉ f a := fun hr => hl (List.mem_flatMap.2 ⟨a, ha, hr⟩)
  have hget {α : Type} {s : Store α} {key : Nat} {a : α} (ha : s.get? key = some a) : a ∈ s.values :=
    Store.mem_values.2 ⟨key, ha⟩
  exact
    { known := by
        rintro i j (hij | ⟨rfl, rfl⟩)
        · exact h.known i j hij
        · exact ⟨Store.lt_next_of_get? hy, hi⟩
      handles := by
        rintro id' y' hy' i (hij | ⟨rfl, hsame⟩)
        · exact h.handles id' y' hy' i hij
        · refine Decidable.byContradiction fun hne => ?_
          have hother : (w.handles.erase i.index).get? id'.index = some y' := by
            rw [Store.get?_erase, if_neg fun hk => hne (HandleId.index_inj.1 hk)]
            exact hy'
          have hown := inst_mem_refs y
          have hsecond := inst_mem_refs y'
          have hle := Store.le_total (·.refs.count (.inst y.inst)) hother
          have htotal := Store.total_erase (·.refs.count (.inst y.inst)) hy
          rw [hsame] at hsecond
          omega
      owners := by
        rintro id' y' i hy' (hij | ⟨rfl, rfl⟩)
        · exact h.owners id' y' i hy' hij
        · cases hy.symm.trans hy'
          exact ⟨rfl, he⟩
      exclusive := fun id' y' hy' hs ho => .inl (h.exclusive id' y' hy' hs ho)
      instances := fun key n hn => hfree (h.instances key n hn) (hmem hinstances (hget hn))
      deferreds := fun key d hd => hfree (h.deferreds key d hd) (hmem (f := fun d => d.value.refs) hdeferreds (hget hd))
      queues := fun key l hl wake hw => hfree (h.queues key l hl wake hw) (hmem
        (hmem (f := fun l => l.queue.flatMap Wake.refs) hqueues (hget hl)) hw)
      delivering := fun e he => hfree (h.delivering e he) (hmem (f := fun d => d.2.refs) hdelivering he)
      errands := fun e he => hfree (h.errands e he) (hmem herrands he)
      jobs := by
        intro job hj
        have hjob := h.jobs job hj
        cases job with
        | count => exact hjob
        | _ => exact hfree hjob (hmem hjobs hj)
      natives := fun e he => hfree (h.natives e he) fun hr => hroots (by
        simp only [Roots.refs, List.mem_append, List.mem_flatMap]
        exact .inl (.inl (.inl (.inl (.inl (.inl (.inr ⟨e, he, hr⟩)))))))
      held := hfree h.held hheld
      objects := h.objects
      apart_lt := fun _ => False.elim
      apart := fun _ _ => False.elim }

end World.Reserved

end Isthmus
