import Isthmus.Proofs.Run.Classes
import Isthmus.Proofs.Values.Endings

/-!
# Proofs/Values/Traces — what a conversion leaves behind

A deferred that is converted gets a promise at once: the promise is parked, the loop is kept alive for it,
and the continuation that the deferred had is replaced.  A list converts item by item, so by the time an
item turns out not to convert, those before it have got their promises, and they are not taken back.

`Reachable.traces` says this exactly.  Whatever comes of a conversion, the parts that it came to are known
(`Registry.Converts`), and deferreds, loops and parked promises are as if each deferred among them had
been given a promise and nothing else had happened.
-/

namespace Isthmus

/-! ## The parts of a value -/

mutual

/-- What a value is made of, apart from variants and lists, in order of conversion. -/
def NativeValue.parts : NativeValue → List NativeValue
  | .variant content => content.parts
  | .list items => NativeValue.partsIn items
  | v => [v]

/-- What the items of a list are made of. -/
def NativeValue.partsIn : List NativeValue → List NativeValue
  | [] => []
  | v :: rest => v.parts ++ NativeValue.partsIn rest

end

/-- The deferreds among parts that a registry makes promises for. -/
def Registry.promised (r : Registry) (parts : List NativeValue) : List DeferredId :=
  parts.filterMap fun v => if r.encoder? v.typeId = some .deferred then v.asDeferred? else none

/-! ## Traces -/

namespace World

/-- Gives a deferred a promise, parked in the next slot of the bridge on a context. -/
def promiseTo (cx : ContextId) (w : World) (d : DeferredId) : World :=
  match w.bridge? cx, w.deferred? d with
  | some (home, i), some cell => (w.promise cx home i.nextSlot d cell).1
  | _, _ => w

/-- Deferreds with their continuations, loops with their registrations and queues, and the slots of parked
promises are the same in both worlds. -/
structure SameTraces (w w' : World) : Prop where
  deferreds : w'.deferreds = w.deferreds
  loops : w'.loops = w.loops
  contexts : w'.contexts = w.contexts
  parked : ∀ id i, w.installation? id = some i → ∃ i', w'.installation? id = some i' ∧
    i'.resolvers.map (·.1) = i.resolvers.map (·.1) ∧ i'.nextSlot = i.nextSlot

variable {w w' w'' : World} {cx : ContextId} {r : Registry} {ds : List DeferredId}

namespace SameTraces

theorem refl (w : World) : SameTraces w w :=
  ⟨rfl, rfl, rfl, fun _ i hi => ⟨i, hi, rfl, rfl⟩⟩

/-- Who leaves no traces twice leaves none. -/
theorem trans (h : SameTraces w w') (h' : SameTraces w' w'') : SameTraces w w'' where
  deferreds := h'.deferreds.trans h.deferreds
  loops := h'.loops.trans h.loops
  contexts := h'.contexts.trans h.contexts
  parked id i hi := by
    obtain ⟨i', hi', hr, hn⟩ := h.parked id i hi
    obtain ⟨i'', hi'', hr', hn'⟩ := h'.parked id i' hi'
    exact ⟨i'', hi'', hr'.trans hr, hn'.trans hn⟩

end SameTraces

/-- **A world that only grows leaves no traces** in loops, deferreds and slots. -/
theorem Grows.sameTraces (h : Grows cx w w') : SameTraces w w' where
  deferreds := h.deferreds
  loops := h.loops
  contexts := h.contexts
  parked id i hi := by
    obtain ⟨more, hi', -⟩ := h.installation? id i hi
    exact ⟨_, hi', rfl, rfl⟩

/-! ## What a promise changes -/

/-- A promise attaches a settlement to its deferred. -/
theorem promise_deferreds (w : World) (cx : ContextId) (home : InstallationId) (slot : Nat)
    (d : DeferredId) (cell : Deferred Settlement) :
    (w.promise cx home slot d cell).1.deferreds =
      w.deferreds.modify d.index fun _ => (cell.attach ⟨cx, slot⟩).1 := by
  rw [promise, await]
  generalize cell.attach ⟨cx, slot⟩ = attached
  obtain ⟨cell', attached⟩ := attached
  dsimp only
  split
  · rfl
  · rfl
  · rw [send, post]
    split
    · rfl
    · rfl

/-- Registrations depend on the loops alone. -/
theorem register_congr (h : w'.loops = w.loops) (c : ContextId) :
    (w'.register c).loops = (w.register c).loops := by
  rw [register_loops, h, register_loops]

/-- So does giving them up. -/
theorem unregister_congr (h : w'.loops = w.loops) (c : ContextId) :
    (w'.unregister c).loops = (w.unregister c).loops := by
  rw [unregister_loops, h, unregister_loops]

/-- So does sending. -/
theorem send_congr (h : w'.loops = w.loops) (c : ContextId) (wake : Wake) :
    (w'.send c wake).1.loops = (w.send c wake).1.loops := by
  have hr := register_congr h c
  have ho : ((w'.register c).loopOf c).isOpen = ((w.register c).loopOf c).isOpen := by
    rw [loopOf_congr hr]
  rw [send, send, post, post, ho]
  split
  · exact congrArg (fun loops => loops.modify c.index fun l => { l with queue := l.queue ++ [wake] }) hr
  · exact unregister_congr hr c

/-- The loops after a promise depend on the loops before it. -/
theorem promise_loops (h : w'.loops = w.loops) (cx : ContextId) (home : InstallationId) (slot : Nat)
    (d : DeferredId) (cell : Deferred Settlement) :
    (w'.promise cx home slot d cell).1.loops = (w.promise cx home slot d cell).1.loops := by
  rw [promise, await, promise, await]
  generalize cell.attach ⟨cx, slot⟩ = attached
  obtain ⟨cell', (_ | old) | ⟨status, v⟩⟩ := attached
  · exact register_congr h cx
  · exact unregister_congr (register_congr h cx) old.context
  · refine send_congr ?_ cx (.settle slot status v)
    exact h

/-- An open loop takes the wake of a deferred that is complete. -/
theorem promise_farewells (h : (w.loopOf cx).isOpen) (home : InstallationId) (slot : Nat)
    (d : DeferredId) (cell : Deferred Settlement) : (w.promise cx home slot d cell).2 = [] := by
  rw [promise, await]
  generalize cell.attach ⟨cx, slot⟩ = attached
  obtain ⟨cell', (_ | old) | ⟨status, v⟩⟩ := attached
  · rfl
  · rfl
  · dsimp only
    rw [send, post, if_pos]
    rw [register_isOpen]
    exact h

/-- A promise leaves its loop open. -/
theorem promise_isOpen (h : (w.loopOf cx).isOpen) (home : InstallationId) (slot : Nat)
    (d : DeferredId) (cell : Deferred Settlement) :
    ((w.promise cx home slot d cell).1.loopOf cx).isOpen := by
  rw [promise, await]
  generalize cell.attach ⟨cx, slot⟩ = attached
  obtain ⟨cell', (_ | old) | ⟨status, v⟩⟩ := attached
  · exact (register_isOpen _ cx cx).trans h
  · exact ((unregister_isOpen _ old.context cx).trans (register_isOpen _ cx cx)).trans h
  · exact ((post_isOpen _ cx _ cx).trans (register_isOpen _ cx cx)).trans h

/-- A promise is made of one object, and no context changes. -/
theorem promise_contexts {cx home} {slot : Nat} {d cell} (hd : w.deferred? d = some cell) :
    (w.promise cx home slot d cell).1.contexts = w.contexts ∧
      (w.promise cx home slot d cell).1.objects = (w.park cx home slot d).objects := by
  obtain ⟨-, hp⟩ | ⟨-, hp⟩ := w.promise_posts cx home slot hd
  · generalize (w.promise cx home slot d cell).1 = w' at hp ⊢
    cases hp with
    | _ => exact ⟨rfl, rfl⟩
  · generalize (w.promise cx home slot d cell).1 = w' at hp ⊢
    cases hp with
    | _ => exact ⟨rfl, rfl⟩

/-- It leaves native instances and buffers alone. -/
theorem promise_stock {cx home} {slot : Nat} {d cell} (hd : w.deferred? d = some cell) :
    (w.promise cx home slot d cell).1.instances = w.instances ∧
      (w.promise cx home slot d cell).1.storages = w.storages := by
  obtain ⟨-, hp⟩ | ⟨-, hp⟩ := w.promise_posts cx home slot hd
  · generalize (w.promise cx home slot d cell).1 = w' at hp ⊢
    cases hp with
    | _ => exact ⟨rfl, rfl⟩
  · generalize (w.promise cx home slot d cell).1 = w' at hp ⊢
    cases hp with
    | _ => exact ⟨rfl, rfl⟩

/-- The promise that a conversion makes. -/
theorem promiseTo_eq {home i d cell} (hb : w.bridge? cx = some (home, i))
    (hd : w.deferred? d = some cell) :
    promiseTo cx w d = (w.promise cx home i.nextSlot d cell).1 := by
  rw [promiseTo, hb, hd]

/-- For a deferred that is gone none is made. -/
theorem promiseTo_gone {d} (hd : w.deferred? d = none) : promiseTo cx w d = w := by
  rw [promiseTo, hd]
  split
  · next h => cases h
  · rfl

/-- A promise parks one entry in its bridge. -/
theorem bridge?_promise {home i d cell} (hb : w.bridge? cx = some (home, i))
    (hd : w.deferred? d = some cell) :
    (w.promise cx home i.nextSlot d cell).1.bridge? cx = some (home, { i with
      resolvers := i.resolvers ++ [(i.nextSlot, ⟨w.objects.next⟩)]
      nextSlot := i.nextSlot + 1 }) := by
  refine bridge?_eq_some.2 ⟨?_, installation?_promise hb hd⟩
  rw [data?, context?, (promise_contexts hd).1]
  exact (bridge?_eq_some.1 hb).1

/-- The bridge stays. -/
theorem isSome_bridge?_promiseTo (hb : (w.bridge? cx).isSome) (d : DeferredId) :
    ((promiseTo cx w d).bridge? cx).isSome := by
  obtain ⟨⟨home, i⟩, hb⟩ := Option.isSome_iff_exists.1 hb
  cases hd : w.deferred? d with
  | none =>
    rw [promiseTo_gone hd, hb]
    rfl
  | some cell =>
    rw [promiseTo_eq hb hd, bridge?_promise hb hd]
    rfl

namespace SameTraces

/-- Without traces a bridge parks what it parked. -/
theorem bridge? (h : SameTraces w w') {id i} (hb : w.bridge? cx = some (id, i)) :
    ∃ i', w'.bridge? cx = some (id, i') ∧ i'.resolvers.map (·.1) = i.resolvers.map (·.1) ∧
      i'.nextSlot = i.nextSlot := by
  obtain ⟨hd, hi⟩ := bridge?_eq_some.1 hb
  obtain ⟨i', hi', hr, hn⟩ := h.parked id i hi
  refine ⟨i', bridge?_eq_some.2 ⟨?_, hi'⟩, hr, hn⟩
  rw [data?, context?, h.contexts]
  exact hd

/-- The same promise leaves the same traces. -/
theorem promiseTo (h : SameTraces w w') (hb : (w.bridge? cx).isSome) (d : DeferredId) :
    SameTraces (promiseTo cx w d) (World.promiseTo cx w' d) := by
  obtain ⟨⟨home, i⟩, hb⟩ := Option.isSome_iff_exists.1 hb
  obtain ⟨i', hb', hr, hn⟩ := h.bridge? hb
  have hcell : w'.deferred? d = w.deferred? d := by rw [deferred?, h.deferreds, deferred?]
  cases hd : w.deferred? d with
  | none =>
    rw [promiseTo_gone hd, promiseTo_gone (hcell.trans hd)]
    exact h
  | some cell =>
    rw [promiseTo_eq hb hd, promiseTo_eq hb' (hcell.trans hd), hn]
    refine ⟨?_, promise_loops h.loops cx home i.nextSlot d cell, ?_, fun id i₀ hi₀ => ?_⟩
    · rw [promise_deferreds, promise_deferreds, h.deferreds]
    · rw [(promise_contexts hd).1, (promise_contexts (hcell.trans hd)).1, h.contexts]
    · have hpark := installation?_congr (w.promise_installations cx home i.nextSlot hd) id
      have hpark' :=
        installation?_congr (w'.promise_installations cx home i.nextSlot (hcell.trans hd)) id
      obtain ⟨j, hj⟩ : ∃ j, w.installation? id = some j := by
        rw [hi₀, installation?, park_installations, Store.get?_modify] at hpark
        split at hpark
        · obtain ⟨j, hj, -⟩ := Option.map_eq_some_iff.1 hpark.symm
          exact ⟨j, hj⟩
        · exact ⟨i₀, hpark.symm⟩
      obtain ⟨j', hj', hrj, hnj⟩ := h.parked id j hj
      rw [hi₀, installation?_modify (w.park_installations cx home i.nextSlot d) hj] at hpark
      cases hpark
      rw [hpark', installation?_modify (w'.park_installations cx home i.nextSlot d) hj']
      refine ⟨_, rfl, ?_⟩
      split
      · refine ⟨?_, rfl⟩
        rw [List.map_append, List.map_append, hrj]
        rfl
      · exact ⟨hrj, hnj⟩

/-- The same promises leave the same traces. -/
theorem promiseAll (h : SameTraces w w') (hb : (w.bridge? cx).isSome) (ds : List DeferredId) :
    SameTraces (ds.foldl (World.promiseTo cx) w) (ds.foldl (World.promiseTo cx) w') := by
  induction ds generalizing w w' with
  | nil => exact h
  | cons d ds ih => exact ih (h.promiseTo hb d) (isSome_bridge?_promiseTo hb d)

end SameTraces

/-- The bridge stays through any number of promises. -/
theorem isSome_bridge?_foldl (hb : (w.bridge? cx).isSome) (ds : List DeferredId) :
    ((ds.foldl (promiseTo cx) w).bridge? cx).isSome := by
  induction ds generalizing w with
  | nil => exact hb
  | cons d ds ih => exact ih (isSome_bridge?_promiseTo hb d)

/-! ## Steps of a conversion -/

/-- A context that conversions can be made on: the bridge has the registry, its classes have their
prototypes, and the loop is open. -/
structure Ready (w : World) (cx : ContextId) (r : Registry) : Prop where
  hosts : w.Hosts cx r
  isOpen : (w.loopOf cx).isOpen

/-- What a conversion does that gives promises to some deferreds: the traces are those of the promises,
which nothing waits for yet, objects are only added, and instances stay as they are. -/
structure Leads (cx : ContextId) (r : Registry) (ds : List DeferredId) (w w' : World) : Prop where
  traces : SameTraces (ds.foldl (promiseTo cx) w) w'
  futures : ∀ {home i}, w.bridge? cx = some (home, i) → ∃ i' more, w'.bridge? cx = some (home, i') ∧
    i'.resolvers = i.resolvers ++ more ∧ more.length = ds.length ∧
    ∀ e ∈ more, w'.object? e.2 = some { context := cx, kind := .promise (.pending []) }
  next_le : w.objects.next ≤ w'.objects.next
  object? : ∀ id : ObjectId, id.index < w.objects.next → w'.object? id = w.object? id
  instances : w'.instances = w.instances
  ready : w'.Ready cx r

namespace Ready

/-- Who is ready to convert has a bridge. -/
theorem isSome_bridge? (h : w.Ready cx r) : (w.bridge? cx).isSome := by
  obtain ⟨id, i, hb, -⟩ := h.hosts
  exact Option.isSome_iff_exists.2 ⟨_, hb⟩

/-- It is ready still when the world has grown. -/
theorem grow (h : w.Ready cx r) (hg : Grows cx w w') : w'.Ready cx r where
  hosts := hg.hosts h.hosts
  isOpen := by
    rw [loopOf_congr hg.loops]
    exact h.isOpen

end Ready

namespace Leads

/-- What only grows leads on without promises. -/
theorem grow (hw : w.Ready cx r) (hg : Grows cx w w') : Leads cx r [] w w' where
  traces := hg.sameTraces
  futures hb := by
    obtain ⟨hd, hi⟩ := bridge?_eq_some.1 hb
    obtain ⟨classes, hi', -⟩ := hg.installation? _ _ hi
    have hd' : w'.data? cx = w.data? cx := by rw [data?, context?, hg.contexts, data?, context?]
    exact ⟨_, [], bridge?_eq_some.2 ⟨hd'.trans hd, hi'⟩, (List.append_nil _).symm, rfl,
      fun e he => absurd he List.not_mem_nil⟩
  next_le := hg.objects_next
  object? := hg.object?
  instances := hg.instances
  ready := hw.grow hg

/-- A world leads to itself, without a promise. -/
theorem refl (hw : w.Ready cx r) : Leads cx r [] w w :=
  .grow hw (Builds.refl w).toGrows

/-- What leads on may lead on further, and the promises come one after the other. -/
theorem trans {ds' : List DeferredId} (hw : w.Ready cx r) (h : Leads cx r ds w w')
    (h' : Leads cx r ds' w' w'') : Leads cx r (ds ++ ds') w w'' where
  traces := by
    rw [List.foldl_append]
    exact (h.traces.promiseAll (isSome_bridge?_foldl hw.isSome_bridge? ds) ds').trans h'.traces
  futures hb := by
    obtain ⟨i', more, hb', hr, hn, hnew⟩ := h.futures hb
    obtain ⟨i'', more', hb'', hr', hn', hnew'⟩ := h'.futures hb'
    refine ⟨i'', more ++ more', hb'', ?_, ?_, fun e he => ?_⟩
    · rw [hr', hr, List.append_assoc]
    · rw [List.length_append, hn, hn', List.length_append]
    · obtain he | he := List.mem_append.1 he
      · exact (h'.object? e.2 (object?_lt (hnew e he))).trans (hnew e he)
      · exact hnew' e he
  next_le := Nat.le_trans h.next_le h'.next_le
  object? id hid := (h'.object? id (Nat.lt_of_lt_of_le hid h.next_le)).trans (h.object? id hid)
  instances := h'.instances.trans h.instances
  ready := h'.ready

/-- Each promise is one entry more in the bridge. -/
theorem length_futures (h : Leads cx r ds w w') {home i} (hb : w.bridge? cx = some (home, i)) :
    ∃ i', w'.bridge? cx = some (home, i') ∧
      i'.resolvers.length = i.resolvers.length + ds.length := by
  obtain ⟨i', more, hb', hr, hn, -⟩ := h.futures hb
  exact ⟨i', hb', by rw [hr, List.length_append, hn]⟩

/-- A value that is there is there at the end. -/
theorem isPresent (h : Leads cx r ds w w') {f : ForeignValue} (hf : w.isPresent f) :
    w'.isPresent f := by
  cases f with
  | object id =>
    obtain ⟨o, ho⟩ := Option.isSome_iff_exists.1 hf
    exact Option.isSome_iff_exists.2 ⟨o, (h.object? id (object?_lt ho)).trans ho⟩
  | _ => exact hf

/-- A deferred is given a promise. -/
theorem promise (hw : w.Ready cx r) {home i d cell} (hb : w.bridge? cx = some (home, i))
    (hd : w.deferred? d = some cell) :
    Leads cx r [d] w (w.promise cx home i.nextSlot d cell).1 where
  traces := by
    rw [List.foldl_cons, List.foldl_nil, promiseTo_eq hb hd]
    exact .refl _
  futures hb' := by
    cases hb.symm.trans hb'
    refine ⟨_, [(i.nextSlot, ⟨w.objects.next⟩)], bridge?_promise hb hd, rfl, rfl, fun e he => ?_⟩
    cases List.mem_singleton.1 he
    rw [World.object?, (promise_contexts hd).2, park, Store.get?_insert]
    exact if_pos rfl
  next_le := by
    rw [(promise_contexts hd).2]
    exact Nat.le_succ _
  object? id hid := by
    rw [World.object?, (promise_contexts hd).2, park, Store.get?_insert, if_neg (Nat.ne_of_lt hid)]
    rfl
  instances := (promise_stock hd).1
  ready := by
    refine ⟨?_, promise_isOpen hw.isOpen home i.nextSlot d cell⟩
    obtain ⟨home', i', hb', hr, hc⟩ := hw.hosts
    cases hb.symm.trans hb'
    refine ⟨home, _, bridge?_promise hb hd, hr, fun e he => (hc e he).congr fun id hid => ?_⟩
    rw [World.object?, (promise_contexts hd).2, park, Store.get?_insert, if_neg (Nat.ne_of_lt hid)]
    rfl

end Leads

end World

/-! ## Conversions -/

/-- **What comes of the conversion of parts**, one after the other: all convert, or one does not, and then
the parts after it are not come to.  `L` holds of the deferreds that were given promises and of the world
in which the conversion ends, and `P` of what comes of it. -/
inductive Registry.Converts (r : Registry) {α : Type} (parts : List NativeValue)
    (L : List DeferredId → World → Prop) (P : α → World → Prop) :
    EStateM.Result Stop World (Except ConvertError α) → Prop where
  | all {a w} (hl : L (r.promised parts) w) (ha : P a w) : Converts r parts L P (.ok (.ok a) w)
  /-- There is no conversion for a part. -/
  | missing {before v after w} (hp : parts = before ++ v :: after)
      (he : r.encoder? v.typeId = none) (hl : L (r.promised before) w) :
      Converts r parts L P (.ok (.error (.noConverter (ClassKey.typeName v.typeId) true)) w)
  /-- The conversion of a part stops, by a throw or by a contract that is broken. -/
  | stopped {before v after stop w} (hp : parts = before ++ v :: after)
      (he : (r.encoder? v.typeId).isSome) (hl : L (r.promised before) w) :
      Converts r parts L P (.error stop w)

namespace Registry

variable {r : Registry} {α : Type} {parts more : List NativeValue}
  {L L' : List DeferredId → World → Prop} {P : α → World → Prop}

/-- The promises of a list are those of its items. -/
theorem promised_append (r : Registry) (parts more : List NativeValue) :
    r.promised (parts ++ more) = r.promised parts ++ r.promised more :=
  List.filterMap_append

/-- The same conversion with a weaker claim about its traces. -/
theorem Converts.mono {result} (h : r.Converts parts L P result) (hl : ∀ ds w, L ds w → L' ds w) :
    r.Converts parts L' P result := by
  cases h with
  | all h ha => exact .all (hl _ _ h) ha
  | missing hp he h => exact .missing hp he (hl _ _ h)
  | stopped hp he h => exact .stopped hp he (hl _ _ h)

/-- More parts come after those that were converted. -/
theorem Converts.after {result} (h : r.Converts more L P result)
    (hl : ∀ ds w, L ds w → L' (r.promised parts ++ ds) w) :
    r.Converts (parts ++ more) L' P result := by
  cases h with
  | all h ha =>
    refine .all ?_ ha
    rw [promised_append]
    exact hl _ _ h
  | @missing before v after w hp he h =>
    refine .missing ((congrArg (parts ++ ·) hp).trans (List.append_assoc ..).symm) he ?_
    rw [promised_append]
    exact hl _ _ h
  | @stopped before v after stop w hp he h =>
    refine .stopped ((congrArg (parts ++ ·) hp).trans (List.append_assoc ..).symm) he ?_
    rw [promised_append]
    exact hl _ _ h

end Registry

namespace Engine

open World

variable {w w' : World} {cx : ContextId} {r : Registry}

/-- A promise for a deferred that is there is made. -/
theorem run_promiseFor {home i d cell} (hb : w.bridge? cx = some (home, i))
    (ho : (w.loopOf cx).isOpen) (hd : w.deferred? d = some cell) :
    (promiseFor cx d).run w = .ok ⟨w.objects.next⟩
      ((w.holding [.object ⟨w.objects.next⟩]).promise cx home i.nextSlot d cell).1 := by
  let w₁ := w.holding [.object ⟨w.objects.next⟩]
  have ho₁ : (w₁.loopOf cx).isOpen := ho
  have hrun : (operate (·.promise cx home i.nextSlot d cell)).run w₁ =
      .ok () (w₁.promise cx home i.nextSlot d cell).1 := by
    change EStateM.Result.ok () (World.release _ (w₁.promise cx home i.nextSlot d cell).2) = _
    rw [promise_farewells ho₁, release]
  rw [promiseFor, run_bind_of_ok (run_bridge hb), run_get_bind, hd]
  exact (run_bind_of_ok (run_hold _)).trans (run_bind_of_ok hrun)

/-- **A deferred gets its promise.** -/
theorem gives_promiseFor (hw : w.Ready cx r) {d : DeferredId} {cell} (hd : w.deferred? d = some cell) :
    Gives (promiseFor cx d) w fun p w' => Leads cx r [d] w w' ∧ w'.isPresent (.object p) := by
  obtain ⟨home, i, hb, -⟩ := hw.hosts
  let w₁ := w.holding [.object ⟨w.objects.next⟩]
  have hbuilds : Builds cx w w₁ := .holding w _
  have hheld := hbuilds.toGrows
  have hb₁ : w₁.bridge? cx = some (home, i) := hbuilds.bridge?_eq.trans hb
  have hd₁ : w₁.deferred? d = some cell := hd
  refine .intro (run_promiseFor hb hw.isOpen hd)
    ⟨(Leads.grow hw hheld).trans hw (.promise (hw.grow hheld) hb₁ hd₁), ?_⟩
  refine Option.isSome_iff_exists.2 ⟨{ context := cx, kind := .promise (.pending []) }, ?_⟩
  rw [World.object?, (promise_contexts hd₁).2, park, Store.get?_insert]
  exact if_pos rfl

/-- A deferred gets its promise if it is there, and nothing happens otherwise. -/
theorem ends_promiseFor (hw : w.Ready cx r) (d : DeferredId) :
    Ends (promiseFor cx d) w (fun p w' => Leads cx r [d] w w' ∧ w'.isPresent (.object p))
      (Leads cx r [] w) := by
  cases hd : w.deferred? d with
  | none =>
    obtain ⟨home, i, hb, -⟩ := hw.hosts
    rw [Ends, promiseFor, run_bind_of_ok (run_bridge hb), run_get_bind, hd]
    exact .refl hw
  | some cell => exact (gives_promiseFor hw hd).ends

/-- A part converts on its own. -/
theorem converts_part (run : Runner) (hw : w.Ready cx r) {v : NativeValue}
    (hl : ∀ items, v ≠ .list items) (hv : ∀ content, v ≠ .variant content) :
    r.Converts [v] (Leads cx r · w) (fun f w' => w'.isPresent f)
      ((toForeign run cx r v).run w) := by
  cases he : r.encoder? v.typeId with
  | none =>
    rw [toForeign_none run hl hv he]
    exact .missing (List.nil_append _).symm he (.refl hw)
  | some e =>
    rw [toForeign_eq run hl hv he]
    have hends : Ends (encode run cx r.maxBufferLength e v) w
        (fun f w' => Leads cx r (r.promised [v]) w w' ∧ w'.isPresent f) (Leads cx r [] w) := by
      by_cases hdef : e = .deferred
      · subst hdef
        cases hd : v.asDeferred? with
        | none =>
          have hnone : r.promised [v] = [] := by
            rw [Registry.promised, List.filterMap_cons_none]
            · rfl
            · rw [if_pos he, hd]
          rw [encode, hd, hnone]
          exact (ends_raiseTypeError w cx _).mono (fun _ _ h => h) fun _ h => .grow hw h.toGrows
        | some d =>
          have hsome : r.promised [v] = [d] := by
            rw [Registry.promised, List.filterMap_cons_some]
            · rfl
            · rw [if_pos he, hd]
          rw [encode, hd, hsome]
          exact .bind (ends_promiseFor hw d) fun p w' h => .pure h
      · have hnone : r.promised [v] = [] := by
          rw [Registry.promised, List.filterMap_cons_none]
          · rfl
          · rw [he, if_neg fun h => hdef (Option.some.inj h)]
        rw [hnone]
        exact (ends_encode run hw.hosts _ hdef v).mono
          (fun _ _ h => ⟨.grow hw h.1, h.2⟩) fun _ h => .grow hw h
    rw [Ends] at hends
    cases hr : (encode run cx r.maxBufferLength e v).run w with
    | ok f w' =>
      rw [hr] at hends
      rw [run_bind_of_ok hr]
      exact .all hends.1 hends.2
    | error stop w' =>
      rw [hr] at hends
      rw [run_bind_of_error hr]
      exact .stopped (List.nil_append _).symm (by rw [he]; rfl) hends

/-- An array of values that are there. -/
theorem gives_array {fs : List ForeignValue} (hf : ∀ f ∈ fs, w.isPresent f) :
    Gives (createArray cx fs) w fun obj w' => Grows cx w w' ∧ w'.isPresent (.object obj) := by
  have hadd : Builds cx w (w.adding { context := cx, kind := .array fs }) := by
    refine .adding w rfl rfl fun items hk p hp => ?_
    cases hk
    obtain ⟨o, ho⟩ := Option.isSome_iff_exists.1 (hf _ hp)
    exact object?_lt ho
  refine .get ?_
  rw [if_pos (List.all_eq_true.2 hf)]
  exact .intro (run_allocate _) ⟨hadd.toGrows, Option.isSome_iff_exists.2 ⟨_, object?_adding w _⟩⟩

mutual

/-- **A value converts part by part.** -/
theorem converts_toForeign (run : Runner) (v : NativeValue) {w : World} (hw : w.Ready cx r) :
    r.Converts v.parts (Leads cx r · w) (fun f w' => w'.isPresent f)
      ((toForeign run cx r v).run w) := by
  cases v with
  | variant content =>
    rw [toForeign, NativeValue.parts]
    exact converts_toForeign run content hw
  | list items =>
    rw [toForeign, NativeValue.parts]
    have h := converts_allToForeign run items hw
    cases hr : (allToForeign run cx r items).run w with
    | error stop w' =>
      rw [hr] at h
      rw [run_bind_of_error hr]
      obtain _ | _ | ⟨hp, he, hl⟩ := h
      exact .stopped hp he hl
    | ok result w' =>
      rw [hr] at h
      rw [run_bind_of_ok hr]
      obtain ⟨hl, hf⟩ | ⟨hp, he, hl⟩ | _ := h
      · obtain ⟨obj, w'', hrun, hg, hpresent⟩ : Gives (createArray cx _) w' _ := gives_array hf
        rw [run_bind_of_ok hrun]
        have hall := hl.trans hw (.grow hl.ready hg)
        rw [List.append_nil] at hall
        exact .all hall hpresent
      · exact .missing hp he hl
  | _ => exact converts_part run hw nofun nofun

/-- Items are converted in order, and their traces follow each other. -/
theorem converts_allToForeign (run : Runner) (items : List NativeValue) {w : World}
    (hw : w.Ready cx r) :
    r.Converts (NativeValue.partsIn items) (Leads cx r · w) (fun fs w' => ∀ f ∈ fs, w'.isPresent f)
      ((allToForeign run cx r items).run w) := by
  cases items with
  | nil => exact .all (.refl hw) nofun
  | cons v rest =>
    rw [allToForeign, NativeValue.partsIn]
    have h := converts_toForeign run v hw
    cases hr : (toForeign run cx r v).run w with
    | error stop w₁ =>
      rw [hr] at h
      rw [run_bind_of_error hr]
      obtain _ | _ | ⟨hp, he, hl⟩ := h
      exact .stopped (by rw [hp, List.append_assoc]; rfl) he hl
    | ok result w₁ =>
      rw [hr] at h
      rw [run_bind_of_ok hr]
      obtain ⟨hl, hf⟩ | ⟨hp, he, hl⟩ | _ := h
      · refine Registry.Converts.after (L := (Leads cx r · w₁)) ?_ fun ds w' h => hl.trans hw h
        have h' := converts_allToForeign run rest hl.ready
        cases hr' : (allToForeign run cx r rest).run w₁ with
        | error stop w₂ =>
          rw [hr'] at h'
          rw [run_bind_of_error hr']
          obtain _ | _ | ⟨hp, he, hl'⟩ := h'
          exact .stopped hp he hl'
        | ok result w₂ =>
          rw [hr'] at h'
          rw [run_bind_of_ok hr']
          obtain ⟨hl', hfs⟩ | ⟨hp, he, hl'⟩ | _ := h'
          · exact .all hl' (List.forall_mem_cons.2 ⟨hl'.isPresent hf, hfs⟩)
          · exact .missing hp he hl'
      · exact .missing (by rw [hp, List.append_assoc]; rfl) he hl

end

end Engine

mutual

/-- The parts of a value refer to what the value refers to. -/
theorem NativeValue.refs_of_parts {v x : NativeValue} (h : x ∈ v.parts) : x.refs ⊆ v.refs := by
  cases v with
  | variant content => exact NativeValue.refs_of_parts (v := content) h
  | list items => exact @NativeValue.refs_of_partsIn items _ h
  | _ => exact List.mem_singleton.1 h ▸ List.Subset.refl _

/-- The parts of a list refer to what its items refer to. -/
theorem NativeValue.refs_of_partsIn {items : List NativeValue} {x : NativeValue}
    (h : x ∈ NativeValue.partsIn items) : x.refs ⊆ NativeValue.refsIn items := by
  cases items with
  | nil => cases h
  | cons v rest =>
    rw [NativeValue.refsIn]
    obtain h | h := List.mem_append.1 h
    · exact List.subset_append_of_subset_left _ (NativeValue.refs_of_parts h)
    · exact List.subset_append_of_subset_right _ (NativeValue.refs_of_partsIn h)

end

/-- A deferred that is promised for is in the value. -/
theorem Registry.mem_refs_of_promised {r : Registry} {v : NativeValue} {d : DeferredId}
    (h : d ∈ r.promised v.parts) : .deferred d ∈ v.refs := by
  obtain ⟨x, hx, hd⟩ := List.mem_filterMap.1 h
  refine NativeValue.refs_of_parts hx ?_
  split at hd
  · cases x with
    | deferred d' =>
      cases hd
      exact List.mem_singleton.2 rfl
    | _ => cases hd
  · cases hd

namespace Engine

open World

/-- However a conversion ends, it has given promises to deferreds in the value. -/
theorem leads_toForeign {w : World} {cx : ContextId} {r : Registry} (run : Runner)
    (hw : w.Ready cx r) (v : NativeValue) :
    ∃ ds, (∀ d ∈ ds, .deferred d ∈ v.refs) ∧ Leads cx r ds w ((toForeign run cx r v).after w) := by
  have h := converts_toForeign run v hw
  rw [after]
  generalize (toForeign run cx r v).run w = result at h
  cases h with
  | all hl hf => exact ⟨_, fun d hd => Registry.mem_refs_of_promised hd, hl⟩
  | @missing before v' more w' hp he hl =>
    refine ⟨_, fun d hd => Registry.mem_refs_of_promised (r := r) ?_, hl⟩
    rw [hp, Registry.promised_append]
    exact List.mem_append_left _ hd
  | @stopped before v' more stop w' hp he hl =>
    refine ⟨_, fun d hd => Registry.mem_refs_of_promised (r := r) ?_, hl⟩
    rw [hp, Registry.promised_append]
    exact List.mem_append_left _ hd

end Engine

/-! ## The law -/

/-- A context whose generated classes still have plain prototypes is ready for conversions. -/
theorem Reachable.ready {w : World} (h : Reachable w) {cx : ContextId} {id i}
    (hb : w.bridge? cx = some (id, i)) (hp : ∀ e ∈ i.classes, w.PlainPrototype cx e.2) :
    w.Ready cx i.registry := by
  obtain ⟨hd, hi⟩ := World.bridge?_eq_some.1 hb
  obtain ⟨_, hi', hmem⟩ := h.bridged.installed hd
  exact ⟨⟨id, i, hb, rfl, fun e he => ⟨h.classed cx id _ i hmem hi e he, hp e he⟩⟩,
    h.housed.isOpen_of_bridge? hb⟩

/-- **A conversion leaves the promises behind that it came to.**  On a context whose generated classes
still have plain prototypes, any value with any registry converts part by part, and however that ends,
deferreds, loops and parked promises are as if each deferred that was come to had been given a promise,
which adds a pending future for each.  So a conversion that fails leaves a trace if and only if a deferred
stands before the part that fails. -/
theorem Reachable.traces {w : World} (h : Reachable w) {cx : ContextId} {id i}
    (hb : w.bridge? cx = some (id, i)) (hp : ∀ e ∈ i.classes, w.PlainPrototype cx e.2)
    (run : Runner) (v : NativeValue) :
    i.registry.Converts v.parts
      (fun ds w' => World.SameTraces (ds.foldl (World.promiseTo cx) w) w' ∧
        ∃ i', w'.bridge? cx = some (id, i') ∧
          i'.resolvers.length = i.resolvers.length + ds.length)
      (fun f w' => w'.isPresent f) ((Engine.toForeign run cx i.registry v).run w) := by
  exact (Engine.converts_toForeign run v (h.ready hb hp)).mono fun ds w' hl =>
    ⟨hl.traces, hl.length_futures hb⟩

/-- A list of a deferred and of a value that no conversion is for. -/
def NativeValue.halfConvertible : NativeValue :=
  .list [.deferred ⟨0⟩, .object ⟨71⟩ ⟨0⟩]

/-- The list does not convert, but its deferred has got a promise. -/
theorem traces_of_halfConvertible : ∃ w',
    (Engine.toForeign (Session.runner 1) ⟨0⟩ .base .halfConvertible).run World.hosted.newDeferred =
      .ok (.error (.noConverter (ClassKey.typeName ⟨71⟩) true)) w' ∧
    World.SameTraces (World.promiseTo ⟨0⟩ World.hosted.newDeferred ⟨0⟩) w' ∧
    ∃ i', w'.bridge? ⟨0⟩ = some (⟨0⟩, i') ∧ i'.resolvers.length = 1 := by
  have hreachable : Reachable World.hosted.newDeferred :=
    reachable_hosted.moves (.single .newDeferred)
  have hb : World.hosted.newDeferred.bridge? ⟨0⟩ = some (⟨0⟩, { registry := .base }) := rfl
  have h := hreachable.traces hb nofun (Session.runner 1) .halfConvertible
  obtain ⟨w', hrun⟩ : ∃ w',
      (Engine.toForeign (Session.runner 1) ⟨0⟩ .base .halfConvertible).run World.hosted.newDeferred =
        .ok (.error (.noConverter (ClassKey.typeName ⟨71⟩) true)) w' := ⟨_, rfl⟩
  refine ⟨w', hrun, ?_⟩
  generalize hresult : (Engine.toForeign (Session.runner 1) ⟨0⟩ Registry.base
    .halfConvertible).run World.hosted.newDeferred = result at h
  have heq := hrun.symm.trans hresult
  cases h with
  | all => cases heq
  | stopped => cases heq
  | @missing before v after w₁ hp he hl =>
    obtain rfl : w' = w₁ := (EStateM.Result.ok.inj heq).2
    -- The deferred has a conversion, so it is the part after it that has none.
    match before, hp with
    | [], hp =>
      cases hp
      cases he
    | [_], hp =>
      cases hp
      exact hl
    | _ :: _ :: _, hp => simp [NativeValue.halfConvertible, NativeValue.parts, NativeValue.partsIn] at hp

end Isthmus
