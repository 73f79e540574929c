import Isthmus.Proofs.Lifetime.Respects
import Isthmus.Proofs.Members.Making

/-!
# Proofs/Lifetime/Apart — foreign objects and reserved instances

Foreign objects refer to instances through handles only.  A value that is apart leads to no handle that has
an instance to itself, and its native counterpart holds no reserved instance
(`World.Reserved.free_fromForeign`).  Objects, properties, classes and channels are made and changed without
native instances; a handle is reserved a place when it is bound (`Stands.bindExclusive_now`).

What runs when a property is read or written is left open here.  It is assumed to be native code that leaves
the reservations as they are, unless it is given a reserved instance to pass on (`Reserve.Runs`).
-/

namespace Isthmus

/-- Each item of a list is right if all are. -/
theorem Results.mapM {ε α β : Type} {Q : α → Prop} {f : β → Except ε α} {bs : List β}
    (h : ∀ b ∈ bs, Results Q (f b)) : Results (fun as => ∀ a ∈ as, Q a) (bs.mapM f) := by
  induction bs with
  | nil => exact .ok nofun
  | cons b bs ih =>
    obtain ⟨hb, hbs⟩ := List.forall_mem_cons.1 h
    rw [List.mapM_cons]
    exact .bind fun a ha => .bind fun as has =>
      .ok (List.forall_mem_cons.2 ⟨hb a ha, ih hbs as has⟩)

/-! ## Foreign values on the native side -/

namespace World.Reserved

variable {w : World} {x : Reserve} {cx : ContextId} {v : ForeignValue}

/-- An object that is apart carries no handle that has an instance to itself. -/
theorem spare_boundHandle (h : w.Reserved x) {id : ObjectId} (hid : x.apart id) :
    Results (fun y => x.Spare y.inst) (w.boundHandle cx id) := by
  rw [World.boundHandle]
  split
  · exact .error
  · next o ho =>
    split
    · exact .error
    · split
      · next i ha =>
        split
        · next y hy =>
          refine .ok fun j hj => ?_
          have hij : i = j := h.handles i y hy j hj
          exact (h.apart id o hid ho).attachment j _ hj (hij ▸ ha)
        · exact .error
      · exact .error

/-- The value of a handle is free if its instance is not reserved. -/
theorem free_nativeValue {y : Handle} (h : x.Spare y.inst) : x.Free (Engine.nativeValue y).refs :=
  Reserve.free_inst.2 h

/-- Numbers refer to nothing. -/
theorem free_ofNumber (n : Float) : x.Free (World.ofNumber n).refs := by
  rw [World.ofNumber]
  split <;> exact Reserve.free_nil

/-- The native counterpart of a value that is apart holds no reserved instance. -/
theorem free_infer (h : w.Reserved x) (hv : x.Apart v) : Results (x.Free ·.refs) (w.infer cx v) := by
  rw [World.infer]
  generalize w.objects.size + 1 = depth
  induction depth generalizing v with
  | zero =>
    unfold World.inferWithin
    split
    case h_4 => exact .ok (free_ofNumber _)
    case h_6 => exact .error
    case h_7 hd => cases hd
    all_goals exact .ok Reserve.free_nil
  | succ depth ih =>
    unfold World.inferWithin
    split
    case h_4 => exact .ok (free_ofNumber _)
    case h_6 hd => cases hd
    case h_7 depth' id hd =>
      cases hd
      split
      · exact .error
      · next o ho =>
        split
        · exact .ok (Reserve.free_of_forall fun i => by simp [NativeValue.refs])
        · next items hk =>
          refine .bind fun natives hn => .ok (Reserve.free_items.2 ?_)
          refine Results.mapM (fun item hitem => .bind fun u hu => .ok ?_) natives hn
          rw [Reserve.refs_toVariant]
          exact ih ((h.apart id o hv ho).items items hk item hitem) u hu
        · exact .bind fun y hy => .ok (free_nativeValue (h.spare_boundHandle hv y hy))
    all_goals exact .ok Reserve.free_nil

/-- The items of an array lie apart if it does. -/
theorem apart_itemsOf (h : w.Reserved x) (hv : x.Apart v) :
    Results (fun items => ∀ item ∈ items, x.Apart item) (World.given (w.itemsOf v)) := by
  cases hi : w.itemsOf v with
  | none => exact .error
  | some items =>
    obtain ⟨o, ho, hk⟩ := Option.bind_eq_some_iff.1 hi
    obtain ⟨id, hid, ho⟩ := Option.bind_eq_some_iff.1 ho
    cases v with
    | object id' =>
      cases hid
      refine .ok ((h.apart _ o hv ho).items items ?_)
      unfold Object.items? at hk
      split at hk <;> cases hk
      assumption
    | _ => cases hid

/-- What a conversion makes of a value that lies apart is free of reserved instances. -/
theorem free_decode (h : w.Reserved x) (hv : x.Apart v) {d : Decoder} :
    Results (x.Free ·.refs) (w.decode cx d v) := by
  have hgiven {α : Type} {f : α → NativeValue} {a : Option α} (hf : ∀ a, x.Free (f a).refs) :
      Results (x.Free ·.refs) (World.given (a.map f)) := by
    cases a with
    | none => exact .error
    | some a => exact .ok (hf a)
  cases d with
  | buffer => exact hgiven fun b => Reserve.free_of_forall fun i => by simp [NativeValue.refs]
  | «instance» cls =>
    refine .bind fun y hy => .ok (free_nativeValue ?_)
    unfold World.handleFor at hy
    split at hy
    · refine Results.bind (Q := fun y => x.Spare y.inst) (fun y hy => ?_) y hy
      split
      · exact .ok (h.spare_boundHandle hv y hy)
      · exact .error
    · cases hy
  | nil =>
    rw [World.decode]
    split
    · exact .ok Reserve.free_nil
    · exact .error
  | _ => exact hgiven fun _ => Reserve.free_nil

/-- So it is with what becomes of it in the end. -/
theorem free_converted {t : TypeId} {r : Except Refusal NativeValue} (h : Results (x.Free ·.refs) r) :
    Results (Results (x.Free ·.refs)) (World.converted t r) := by
  unfold World.converted
  split
  · exact .ok (.ok (h _ rfl))
  · exact .ok .error
  · exact .error

/-- **What a value that is apart converts to** holds no reserved instance. -/
theorem free_fromForeign (h : w.Reserved x) (hv : x.Apart v) {registry : Registry} {t : TypeId} :
    Results (Results (x.Free ·.refs)) (w.fromForeign cx registry v t) := by
  rw [World.fromForeign]
  split
  · refine free_converted (.bind fun u hu => .ok ?_)
    rw [Reserve.refs_toVariant]
    exact h.free_infer hv u hu
  · split
    · refine free_converted (.bind fun items hitems => .bind fun natives hn =>
        .ok (Reserve.free_items.2 (Results.mapM (fun item hitem => .bind fun u hu => .ok ?_) natives hn)))
      rw [Reserve.refs_toVariant]
      exact h.free_infer (h.apart_itemsOf hv items hitems item hitem) u hu
    · split
      · exact .ok .error
      · refine free_converted (.bind fun b _ => ?_)
        split
        · exact h.free_decode hv
        · exact .error

end World.Reserved

/-- The property that an object answers with runs native code only. -/
theorem World.Reserved.isNative_lookup {w : World} {x : Reserve} (h : w.Reserved x) {id : ObjectId}
    {name : String} : ∀ r ∈ w.lookup id name, r.1.isNative := by
  induction id using World.lookup.induct w name with
  | case1 id ho =>
    rw [World.lookup, ho]
    rintro r ⟨⟩
  | case2 id o ho p hp =>
    rw [World.lookup, ho]
    dsimp only
    rw [hp]
    rintro r ⟨⟩
    obtain ⟨e, he, rfl⟩ := Option.map_eq_some_iff.1 hp
    exact (h.objects _ o ho).properties e (List.mem_of_find?_eq_some he)
  | case3 id o ho hown hproto =>
    rw [World.lookup, ho]
    dsimp only
    rw [hown, hproto]
    rintro r ⟨⟩
  | case4 id o ho hown proto hproto hlt ih =>
    rw [World.lookup, ho]
    dsimp only
    rw [hown, hproto]
    dsimp only
    rw [if_pos hlt]
    rintro r hr
    obtain ⟨r', hr', rfl⟩ := Option.map_eq_some_iff.1 hr
    exact ih r' hr'
  | case5 id o ho hown proto hproto hlt =>
    rw [World.lookup, ho]
    dsimp only
    rw [hown, hproto]
    dsimp only
    rw [if_neg hlt]
    rintro r ⟨⟩

/-! ## Objects and properties -/

/-- The property is a value or runs native code. -/
def Engine.Definition.isNative (d : Engine.Definition) : Bool :=
  match d.member with
  | .method code _ => code.isNative
  | .accessor getter setter _ => getter.all Accessor.isNative && setter.all Accessor.isNative
  | .value _ => true

/-- The code is that of a class constructor, called to construct. -/
def Callback.Constructs (code : Callback) (info : CallInfo) : Prop :=
  (∃ cls, code = .member cls .construct) ∧ info.isConstructCall

/-- Native code that passes on no more than values apart from reserved instances leaves the reservations
alone, if it does not construct. -/
structure Reserve.Runs (x : Reserve) (run : Runner) : Prop where
  call : ∀ {w cx code info}, code.isNative → (w.passesOn info code → ∀ v ∈ info.args, x.Apart v) →
    ¬ code.Constructs info → x.Stands w ((run.call cx code info).after w)

/-- An accessor is never called to construct. -/
theorem Callback.not_constructs_of_data {code : Callback} {receiver args data} :
    ¬ code.Constructs { receiver, args, data } :=
  fun h => nomatch h.2

namespace Stands

open Engine (Respects)

variable {α : Type} {x : Reserve} {run : Runner} {cx : ContextId}

/-- A new object runs native code, and nothing else. -/
theorem allocate {o : Object} (h : o.RunsNative) : Conserves x.Stands (Engine.allocate o) :=
  .update (fun _ hw => hw.addObject h) fun _ =>
    .bind (hold (Reserve.free_of_forall fun i => by simp)) fun _ => .pure

theorem createArray {items} : Conserves x.Stands (Engine.createArray cx items) :=
  .bind .get fun _ => .ite (fun _ => allocate ⟨nofun, nofun⟩) fun _ => .abort

/-- So does one with a property more. -/
theorem putOwn {id name} {p : Property} (h : p.isNative) : Conserves x.Stands (Engine.putOwn id name p) := by
  have hput : Conserves x.Stands (Engine.modifyObject id (·.put name p)) :=
    .modify fun _ hw => hw.changeObject (fun _ ho => ho.put h) fun _ _ ho => ⟨ho.attachment, ho.items⟩
  exact .bind .object fun _ => .bind hput fun _ => letGo

theorem createError {name message} : Conserves x.Stands (Engine.createError cx name message) := by
  refine allocate ⟨nofun, fun e he => ?_⟩
  rcases List.mem_cons.1 he with rfl | he
  · rfl
  · rw [List.mem_singleton.1 he]
    rfl

theorem raiseTypeError {message} : Conserves x.Stands (Engine.raiseTypeError cx message : Engine α) :=
  .bind createError fun _ => .raise

theorem modifyContext {f} : Conserves x.Stands (Engine.modifyContext cx f) :=
  .modify fun _ hw => hw.of_eq rfl

theorem describe {v} : Conserves x.Stands (Engine.describe v) := by
  refine get fun w _ => ?_
  split
  · exact .pure
  · exact .throw

/-- A getter passes on nothing but what it gives. -/
theorem getProperty (hrun : x.Runs run) {id name} :
    Conserves x.Stands (Engine.getProperty run cx id name) := by
  refine .bind .checkOwned fun _ => .bind .object fun o => ?_
  split
  · exact keep
  · refine get fun w hw => ?_
    split
    · exact keep
    · next getter _ _ _ _ hl =>
      have hn := hw.isNative_lookup _ hl
      rw [Property.isNative, Bool.and_eq_true] at hn
      exact fun v hv => hrun.call (getter.isNative_callback.trans hn.1) (fun _ => nofun)
        Callback.not_constructs_of_data hv
    · exact .pure

/-- A setter passes on what it is given only where it is known to. -/
theorem setProperty_now (hrun : x.Runs run) {w : World} {id name v}
    (h : ∀ getter setter data enumerable own,
      w.lookup id name = some (.accessor getter (some setter) data enumerable, own) →
      w.passesOn { receiver := .object id, args := [v], data } setter.callback → x.Apart v) :
    x.Stands w ((Engine.setProperty run cx id name v).after w) := by
  refine Conserves.bind_now .checkOwned fun _ w' hc => ?_
  obtain ⟨rfl, -⟩ := Engine.checkOwned_ok hc
  refine fun hw => Conserves.get_now (R := x.Stands) ?_ hw
  split
  · next getter setter data _ _ hl =>
    have hn := hw.isNative_lookup _ hl
    rw [Property.isNative, Bool.and_eq_true] at hn
    refine Conserves.step_now (hrun.call (setter.isNative_callback.trans hn.2) (fun hp => ?_)
      Callback.not_constructs_of_data) fun _ _ _ => Conserves.pure _
    exact List.forall_mem_singleton.2 (h _ _ _ _ _ hl hp)
  · exact raiseTypeError _
  · exact raiseTypeError _
  · exact putOwn rfl _
  · exact putOwn rfl _

/-- Members run native code. -/
theorem define {id} {d : Engine.Definition} (h : d.isNative) : Conserves x.Stands (Engine.define cx id d) := by
  rw [Engine.Definition.isNative] at h
  unfold Engine.define
  split
  · next code data hd =>
    rw [hd] at h
    refine .bind (allocate ⟨fun hk => ?_, nofun⟩) fun _ => putOwn rfl
    cases hk
    exact h
  · next getter setter data hd =>
    rw [hd] at h
    exact putOwn h
  · exact putOwn rfl

theorem defineAll {id} {ds : List Engine.Definition} (h : ∀ d ∈ ds, d.isNative) :
    Conserves x.Stands (Engine.defineAll cx id ds) :=
  .bind .checkOwned fun _ => forM fun d hd => define (h d hd)

/-- So do constructors. -/
theorem defineClass {name data} {code : Callback} {ds : List Engine.Definition} (hc : code.isNative)
    (h : ∀ d ∈ ds, d.isNative) : Conserves x.Stands (Engine.defineClass cx name code data ds) := by
  have hfunction : Object.RunsNative { context := cx, kind := .function name code data } :=
    ⟨fun hk => by cases hk; exact hc, nofun⟩
  exact .bind (allocate hfunction) fun _ => .bind (allocate ⟨nofun, nofun⟩) fun _ =>
    .bind (putOwn rfl) fun _ => .bind (putOwn rfl) fun _ =>
      .bind (forM fun d hd => define (h d hd)) fun _ => .pure

/-! ## Functions -/

/-- What is called runs native code. -/
theorem callable {f} : Respects x (·.2.1.isNative) (Engine.callable cx f) := by
  refine .get fun w hw => ?_
  split
  · split
    · next id _ name code data hf =>
      refine .pure ?_
      obtain ⟨o, ho, hk⟩ := Option.bind_eq_some_iff.1 hf
      unfold Object.function? at hk
      split at hk <;> cases hk
      exact (hw.objects _ o ho).code ‹_›
    · exact .after describe fun _ => .after createError fun _ => .throw
  · exact .after describe fun _ => .after createError fun _ => .throw

theorem createWithPrototype {proto} : Conserves x.Stands (Engine.createWithPrototype cx proto) :=
  .withPrototype (allocate ⟨nofun, nofun⟩)

/-- An instance is made with a prototype that is found. -/
theorem createInstance (hrun : x.Runs run) {cls} : Conserves x.Stands (Engine.createInstance run cx cls) :=
  .bind (getProperty hrun) fun _ => createWithPrototype

/-! ## Channels -/

theorem registry : Conserves x.Stands (Engine.registry cx) :=
  .bind .bridge fun _ => .pure

/-- A connection of channels shares no instance. -/
theorem connect {descriptor source} : Conserves x.Stands (Engine.connect cx descriptor source) := by
  refine .now fun w => ?_
  dsimp only
  split
  · exact Conserves.set_now (fun hw => hw.of_eq rfl) fun _ => .pure
  · exact Conserves.set_now (fun hw => hw.of_eq rfl) fun _ => .bind .bridge fun _ => .pure

/-- To subscribe shares none either. -/
theorem subscribe {id signature callback} :
    Conserves x.Stands (Engine.subscribe cx id signature callback) := by
  have hprune (w : World) (home : InstallationId) : (w.prune home).1.sharing = w.sharing := by
    rw [World.prune]
    split <;> rfl
  have hset (w : World) (place home slot) : x.Stands w (w.setSubscriber id place home slot callback).1 := by
    intro hw
    unfold World.setSubscriber
    split
    · exact hw
    · exact hw.of_eq (hprune _ _)
    · exact hw.of_eq (hprune _ _)
  refine .bind .get fun w => ?_
  split
  · split
    · exact .ite (fun _ => .pure) fun _ => .bind .bridge fun _ => .bind (.operate fun w => hset w _ _ _) fun _ =>
        .pure
    · exact .pure
  · exact .abort

theorem handleOf {id} : Conserves x.Stands (Engine.handleOf cx id) := by
  refine .bind .checkOwned fun _ => .bind .object fun o => ?_
  split
  · exact .bind .get fun _ => .pure
  · exact .pure

/-! ## Classes -/

/-- A constant shares none. -/
theorem encodePlain {limit e v} : Conserves x.Stands (Engine.encodePlain cx limit e v) := by
  unfold Engine.encodePlain
  split
  case h_5 => exact .ite (fun _ => .bind (allocate ⟨nofun, nofun⟩) fun _ => .pure) fun _ => .pure
  case h_8 => exact raiseTypeError
  all_goals exact .pure

/-- The definition of a constant shares none. -/
theorem constantDefinition {registry d name c} :
    Respects x (·.isNative) (Engine.constantDefinition cx registry d name c) := by
  unfold Engine.constantDefinition
  dsimp only
  split
  · exact .abort
  · refine .after (.attempt encodePlain) fun r => ?_
    split
    · exact .pure rfl
    · exact .abort
    · exact .throw

/-- Methods run native code. -/
theorem isNative_methodDefinitions (cls : ClassKey) (d : TypeDescriptor) :
    ∀ e ∈ Engine.methodDefinitions cls d ++ Engine.onDefinitions cls d, e.isNative := by
  intro e he
  obtain he | he := List.mem_append.1 he
  · obtain ⟨m, -, rfl⟩ := List.mem_map.1 he
    dsimp only
    split <;> rfl
  · rw [Engine.onDefinitions] at he
    split at he
    · rw [List.mem_singleton.1 he]
      rfl
    · cases he

/-- So do getters and setters. -/
theorem isNative_propertyDefinitions (cls : ClassKey) (d : TypeDescriptor) :
    ∀ e ∈ Engine.propertyDefinitions cls d, e.isNative := by
  intro e he
  obtain ⟨p, -, rfl⟩ := List.mem_map.1 he
  cases hr : p.1.readable <;> cases hw : p.1.writable <;> simp [Engine.Definition.isNative, hr, hw, Accessor.isNative]

/-- A class that is generated shares nothing. -/
theorem generateClass {registry cls} : Conserves x.Stands (Engine.generateClass cx registry cls) := by
  refine get fun w _ => ?_
  refine (Respects.mapM fun c => constantDefinition).andThen fun constants hc => ?_
  refine defineClass rfl fun d hd => ?_
  obtain hd | hd := List.mem_append.1 hd
  · exact isNative_methodDefinitions cls _ d hd
  · exact hc d hd

theorem classOf {cls} : Conserves x.Stands (Engine.classOf cx cls) := by
  refine .bind .bridge fun b => ?_
  dsimp only
  split
  · exact .bind (hold (Reserve.free_of_forall fun i => by simp)) fun _ => .pure
  · exact .bind generateClass fun _ => .bind (.modify fun _ hw => hw.of_eq rfl) fun _ => .pure

/-! ## Binding -/

/-- A shared handle is bound that has nothing to itself. -/
theorem bindHandle_now {w : World} {id : HandleId} {y : Handle} {obj : ObjectId} (hw : w.Reserved x)
    (hy : w.handle? id = some y) (hs : y.ownership = .shared) (hn : ∀ i, ¬ x.owner id i) :
    ((Engine.bindHandle cx id obj).after w).Reserved x := by
  by_cases h : ∃ o, w.object? obj = some o ∧ w.Bindable cx y o
  · obtain ⟨o, ho, hb⟩ := h
    rw [Engine.after_of_ok (Engine.run_bindHandle hy ho hb)]
    exact hw.binding hy (fun he => nomatch hs.symm.trans he) (fun _ _ => hn) obj
  · obtain ⟨text, hrun⟩ := Engine.run_bindHandle_error hy fun o ho hb => h ⟨o, ho, hb⟩
    rw [Engine.after_of_error hrun]
    exact hw

/-- An exclusive handle that is bound has its instance to itself. -/
theorem bindExclusive_now {w : World} {id : HandleId} {y : Handle} {obj : ObjectId} (hw : w.Reserved x)
    (hy : w.handle? id = some y) (hi : y.inst.index < w.instances.next) (he : y.ownership = .exclusive)
    {w' : World} (hrun : (Engine.bindHandle cx id obj).run w = .ok () w') :
    w'.Reserved (x.adding id y.inst) := by
  obtain ⟨o, ho, hb⟩ : ∃ o, w.object? obj = some o ∧ w.Bindable cx y o := by
    refine Classical.byContradiction fun h => ?_
    obtain ⟨text, herror⟩ := Engine.run_bindHandle_error hy fun o ho hb => h ⟨o, ho, hb⟩
    exact nomatch hrun.symm.trans herror
  have hcount : w.count (.inst y.inst) = 1 :=
    hb.owner.resolve_left fun hs => nomatch he.symm.trans hs
  cases (Engine.run_bindHandle hy ho hb).symm.trans hrun
  exact (hw.reserve hy hi he hcount).binding hy (fun _ => .inr ⟨rfl, rfl⟩) nofun obj

/-- Attaching a handle comes down to binding it and defining the properties of its class. -/
theorem attach_now {P : World → Prop} {w : World} {cls} {id : HandleId} {y : Handle} {obj : ObjectId}
    (hw : w.Reserved x) (hy : w.handle? id = some y) (hstop : ∀ w', w'.Reserved x → P w')
    (hbind : ∀ w' y', w'.Reserved x → w'.instances = w.instances → w'.handle? id = some y' →
      y'.inst = y.inst → y'.ownership = y.ownership → P ((do
        Engine.bindHandle cx id obj
        Engine.defineAll cx obj (Engine.propertyDefinitions cls (w.plans.descriptor cls))).after w')) :
    P ((Engine.attach cx cls obj id).after w) := by
  obtain h | ⟨source, h⟩ := Steady.after_attach cx w cls obj id
  · rw [h]
    exact hbind w y hw rfl hy rfl rfl
  have hconnect : ((Engine.connect cx (w.plans.descriptor cls) source).after w).Reserved x := connect w hw
  have hsame : ((Engine.connect cx (w.plans.descriptor cls) source).after w).holdings = w.holdings :=
    (Steady.connect_holdings w).1
  obtain h | ⟨c, -, h⟩ := h
  · rw [h]
    exact hstop _ hconnect
  · rw [h]
    generalize (Engine.connect cx (w.plans.descriptor cls) source).after w = v at hconnect hsame
    simp only [World.holdings, Prod.mk.injEq] at hsame
    obtain ⟨-, hhandles, hinstances, -⟩ := hsame
    refine hbind _ { y with channels := some c } ?_ hinstances ?_ rfl rfl
    · exact hconnect.changeHandle fun y' hy' => ⟨rfl, rfl, hconnect.exclusive id y' hy'⟩
    · rw [World.handle?, Store.get?_modify, if_pos rfl, hhandles]
      exact congrArg (Option.map _) hy

/-- Another foreign object for an instance that is not reserved. -/
theorem attachShared {cls inst obj} (hi : x.Spare inst) : Conserves x.Stands (do
    let id ← Engine.createHandle cls inst .shared
    Engine.attach cx cls obj id) := by
  intro w hw
  have hnew : { w with handles := w.handles.insert { cls, inst, ownership := .shared } }.handle?
      ⟨w.handles.next⟩ = some { cls, inst, ownership := .shared } := by
    rw [World.handle?, Store.get?_insert, if_pos rfl]
  have hunowned (i : InstanceId) : ¬ x.owner ⟨w.handles.next⟩ i :=
    fun h => Nat.lt_irrefl _ (hw.known _ i h).1
  refine attach_now (P := (·.Reserved x)) (hw.addHandle .shared hi) hnew (fun _ h => h) ?_
  intro w' y' hw' _ hy' _ hs
  exact Conserves.step_now (R := x.Stands) (fun hw => bindHandle_now hw hy' hs hunowned)
    (fun _ w'' _ => defineAll (isNative_propertyDefinitions cls _) w'') hw'

/-- To wrap an instance that is not reserved leaves the reservations alone. -/
theorem wrapInstance (hrun : x.Runs run) {cls inst} (hi : x.Spare inst) :
    Conserves x.Stands (Engine.wrapInstance run cx cls inst) := by
  refine .bind classOf fun _ => .bind (createInstance hrun) fun obj => ?_
  rw [← bind_assoc]
  exact .bind (attachShared hi) fun _ => .pure

/-- So does wrapping a value that refers to none. -/
theorem wrapNative (hrun : x.Runs run) {cls} {v : NativeValue} (hv : x.Free v.refs) :
    Conserves x.Stands (Engine.wrapNative run cx cls v) := by
  refine .bind .get fun w => ?_
  split
  · next inst hinst =>
    have hmem : .inst inst ∈ v.refs := NativeValue.mem_refs_of_asObject? hinst
    have hfree : x.Free [.inst inst] := fun h i ho hi => hv h i ho (List.mem_singleton.1 hi ▸ hmem)
    have hspare : x.Spare inst := fun h ho => hv h inst ho hmem
    exact .ite (fun _ => .bind (hold hfree) fun _ => .bind (wrapInstance hrun hspare) fun _ => .pure)
      fun _ => raiseTypeError
  · exact raiseTypeError

end Stands

end Isthmus
