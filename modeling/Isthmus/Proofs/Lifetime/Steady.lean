import Isthmus.Proofs.Lifetime.Edits
import Isthmus.Proofs.Values.Instances
import Isthmus.Proofs.Values.Ownership

/-!
# Proofs/Lifetime/Steady — what a session does to objects, handles and instances

Most of what a session does leaves objects, handles, native instances, channels and the names of handles as
they were, and what it does to them it does in a few ways.  A relation that holds for each of these ways and
for everything else is `Steady`, and then a whole session conserves it.
-/

namespace Isthmus

open World

/-! ## Frames -/

namespace Engine

variable {α : Type}

theorem held_holding (w : World) (refs : List Ref) : (w.holding refs).held.tail = w.held.tail := by
  rw [World.holding]
  cases w.held with
  | nil => rfl
  | cons frame outer => rfl

/-- An action with a frame of its own ends where it would have ended, but for what is held, and what has
no owner goes then.  What the actions outside hold stays held, and nothing else comes to be held but a
value that is thrown. -/
theorem after_framed (m : Engine α) (w : World) : ∃ held,
    (framed m).after w = { m.after { w with held := [] :: w.held } with held }.sweep ∧
      ((m.after { w with held := [] :: w.held }).held.tail = w.held →
        held.tail = w.held.tail ∧ w.held.flatten ⊆ held.flatten) ∧
      ∀ r ∈ held.flatten, r ∈ (m.after { w with held := [] :: w.held }).held.flatten ∨
        ∃ v : ForeignValue, r ∈ v.refs := by
  have hopen : openFrame.run w = .ok () { w with held := [] :: w.held } := rfl
  have hattempt := run_attempt m { w with held := [] :: w.held }
  -- unless a value is thrown, the frame goes as it came
  have hsame {held : List (List Ref)} (h : held = w.held) :
      held.tail = w.held.tail ∧ w.held.flatten ⊆ held.flatten := by
    rw [h]
    exact ⟨rfl, List.Subset.refl _⟩
  have htail {held : List (List Ref)} {r : Ref} (h : r ∈ held.tail.flatten) : r ∈ held.flatten := by
    obtain ⟨frame, hframe, hr⟩ := List.mem_flatten.1 h
    exact List.mem_flatten.2 ⟨frame, List.mem_of_mem_tail hframe, hr⟩
  rw [after, framed, run_bind_of_ok hopen]
  cases hr : m.run { w with held := [] :: w.held } with
  | ok a w₁ =>
    rw [hr] at hattempt
    rw [run_bind_of_ok hattempt, after_of_ok hr]
    exact ⟨w₁.held.tail, rfl, hsame, fun _ h => .inl (htail h)⟩
  | error stop w₁ =>
    rw [hr] at hattempt
    rw [run_bind_of_ok hattempt, after_of_error hr]
    cases stop with
    | thrown v =>
      refine ⟨_, rfl, fun h => ?_, ?_⟩
      · dsimp only
        rw [← h]
        obtain _ | ⟨frame, _ | ⟨outer, rest⟩⟩ := w₁.held
        · exact ⟨rfl, List.Subset.refl _⟩
        · exact ⟨rfl, List.Subset.refl _⟩
        · exact ⟨rfl, List.append_subset.2 ⟨fun r hr => by simp [hr], fun r hr => by simp [hr]⟩⟩
      · intro r hr
        dsimp only at hr
        generalize w₁.held = frames at hr ⊢
        obtain _ | ⟨frame, _ | ⟨outer, rest⟩⟩ := frames
        · exact .inl (htail hr)
        · exact .inl (htail hr)
        · simp only [List.tail_cons, List.flatten_cons, List.mem_append] at hr ⊢
          obtain (hr | hr) | hr := hr
          · exact .inr ⟨v, hr⟩
          · exact .inl (.inr (.inl hr))
          · exact .inl (.inr (.inr hr))
    | _ => exact ⟨w₁.held.tail, rfl, hsame, fun _ h => .inl (htail h)⟩

end Engine

/-! ## The few ways -/

/-- The channels, and the plans of the classes that declare them. -/
def World.outfit (w : World) :=
  (w.channels, w.plans)

theorem World.Posts.outfit {w w' : World} (h : Posts w w') : w'.outfit = w.outfit := by
  cases h with
  | _ => rfl

/-- A reflexive and transitive relation that holds for each thing that native code does to instances, for
letting go, and for everything that leaves objects, handles, instances, channels and the names of handles as
they were. -/
class NativeSteady (R : World → World → Prop) : Prop extends Releases R where
  aside {w w' : World} (h : w'.holdings = w.holdings ∧ w'.held = w.held) (ho : w'.outfit = w.outfit) :
    R w w'
  hold (w : World) (refs : List Ref) : R w (w.holding refs)
  /-- What happens in a frame of its own, which is closed again. -/
  frame {w w₁ w₂ : World} (h : R { w with held := [] :: w.held } w₁) (h₂ : w₂.holdings = w₁.holdings)
    (ho : w₂.outfit = w₁.outfit)
    (hh : w₁.held.tail = w.held → w₂.held.tail = w.held.tail ∧ w.held.flatten ⊆ w₂.held.flatten) :
    R w w₂.sweep
  addInstance (w : World) (i : Instance) : R w { w with instances := w.instances.insert i }
  setInstance {w : World} {id : InstanceId} {before after : Instance}
    (hi : w.instance? id = some before) (hc : after.class? = before.class?) :
    R w { w with instances := w.instances.modify id.index fun _ => after }

theorem NativeSteady.posts {R : World → World → Prop} [NativeSteady R] {w w' : World} (h : Posts w w') :
    R w w' :=
  aside h.holdings h.outfit

instance (priority := low) {R : World → World → Prop} [NativeSteady R] : NativeWork R where
  hold refs w := NativeSteady.hold w refs
  letGo _ w := Releases.release w _
  framed {α m} h w := by
    obtain ⟨held, hafter, hheld, -⟩ := Engine.after_framed m w
    rw [hafter]
    exact NativeSteady.frame (h _) rfl rfl hheld
  createBuffer _ _ _ := NativeSteady.aside ⟨rfl, rfl⟩ rfl
  createSource _ := NativeSteady.aside ⟨rfl, rfl⟩ rfl
  createInstanceOf i w := NativeSteady.addInstance w i
  createDeferred _ := NativeSteady.aside ⟨rfl, rfl⟩ rfl
  spawn _ _ := NativeSteady.aside ⟨rfl, rfl⟩ rfl
  fire _ _ _ := .operate fun w => World.fire_of_posts NativeSteady.posts w _ _ _
  updateInstance hi _ hc :=
    Conserves.modify_now (NativeSteady.setInstance hi hc) fun _ w => Releases.release w _

/-- A relation that also holds for each thing that is done to objects and to channels, but for settling
promises and waiting for them. -/
class ObjectSteady (R : World → World → Prop) : Prop extends NativeSteady R where
  addObject (w : World) {o : Object} (hs : ∀ state, o.kind = .promise state → state = .pending [])
    (ha : o.attachment = none) (hp : o.prototype = none) (hn : (o.properties.map (·.1)).Nodup) :
    R w { w with objects := w.objects.insert o }
  createWithPrototype (cx : ContextId) (proto : Option ObjectId) :
    Conserves R (Engine.createWithPrototype cx proto)
  put (id : ObjectId) (name : String) (p : Property) :
    Conserves R (Engine.modifyObject id (·.put name p))
  wrap (cx : ContextId) (id : ObjectId) (data : Script.Payload) :
    Conserves R (Engine.wrap cx id (.plain data))
  attachNew (cx : ContextId) (cls : ClassKey) (ownership : Ownership) :
    ∃ Fit, Admits R cx cls ownership Fit
  connect (cx : ContextId) (d : TypeDescriptor) (source : SourceId) :
    Conserves R (Engine.connect cx d source)
  setSubscriber (w : World) (id : ChannelsId) (place : Nat) (home : InstallationId) (slot : Nat)
    (callback : Option ForeignValue) : R w (w.setSubscriber id place home slot callback).1

/-- A relation that also holds for each other thing that a session does to objects and to the names of
handles. -/
class Steady (R : World → World → Prop) : Prop extends ObjectSteady R where
  addFinalizer (cx : ContextId) (id : ObjectId) (label : String) :
    Conserves R (Session.addFinalizer cx id label)
  modifyRoots {f : Roots → Roots} (hf : ∀ r : Roots, r.Fades (f r)) : Conserves R (Session.modifyRoots f)
  /-- A new handle gets a name, for an instance of its class that is there. -/
  nameHandle (name : String) {cls : ClassKey} {inst : InstanceId} (ownership : Ownership) {w : World}
    (hi : w.IsOf cls inst) : R w ((do
      let id ← Engine.createHandle cls inst ownership
      Session.assignHandle name id
      Session.showHandle id : Engine Document).after w)
  bindNamed (cx : ContextId) (name : String) (obj : ObjectId) :
    Conserves R (Session.bindNamed cx name obj)
  settle {run : Runner} (hrun : Runs R run) (cx : ContextId) (promise : ObjectId) (fulfil : Bool)
    (v : ForeignValue) : Conserves R (Engine.settle run cx promise fulfil v)
  onSettled {run : Runner} (hrun : Runs R run) (cx : ContextId) (promise : ObjectId) (r : Reaction) :
    Conserves R (Engine.onSettled run cx promise r)

namespace Steady

open NativeSteady ObjectSteady

variable {R : World → World → Prop} {w w' : World} {cx : ContextId}

/-! ## Objects -/

/-- Connecting channels leaves handles, objects and instances as they are. -/
theorem connect_holdings {descriptor source} (w : World) :
    ((Engine.connect cx descriptor source).after w).holdings = w.holdings ∧
      ((Engine.connect cx descriptor source).after w).held = w.held := by
  rw [Engine.after, Engine.connect, Engine.run_get_bind]
  dsimp only
  cases hb : w.bridge? cx with
  | some b => exact ⟨rfl, rfl⟩
  | none =>
    have hbridge := Engine.run_bridge_none (w := { w with
      nextConnection := w.nextConnection + 1
      sources := w.sources.modify source.index (·.connect ⟨w.nextConnection⟩ ⟨w.channels.next⟩)
      channels := w.channels.skip }) hb
    dsimp only
    rw [Engine.run_bind_of_ok (m := set _) rfl, Engine.run_bind_of_error hbridge]
    exact ⟨rfl, rfl⟩

/-- Attaching a handle comes down to binding it and defining the properties of its class, unless channels
that it is given first stop at a context without a bridge. -/
theorem after_attach (cx : ContextId) (w : World) (cls : ClassKey) (obj : ObjectId) (id : HandleId) :
    let d := w.plans.descriptor cls
    let rest : Engine Unit := do
      Engine.bindHandle cx id obj
      Engine.defineAll cx obj (Engine.propertyDefinitions cls d)
    (Engine.attach cx cls obj id).after w = rest.after w ∨ ∃ source,
      let w₁ := (Engine.connect cx d source).after w
      (Engine.attach cx cls obj id).after w = w₁ ∨
        ∃ c, (Engine.connect cx d source).run w = .ok c w₁ ∧ (Engine.attach cx cls obj id).after w =
          rest.after { w₁ with handles := w₁.handles.modify id.index ({ · with channels := some c }) } := by
  intro d rest
  rw [Engine.attach, Engine.after, Engine.run_get_bind, ← Engine.after]
  dsimp only
  split
  · split
    · rw [Engine.after, Engine.run_bind_of_ok (Engine.run_sourceOf _ w), ← Engine.after]
      split
      · next source _ =>
        refine .inr ⟨source, ?_⟩
        cases hc : (Engine.connect cx d source).run w with
        | error e w₁ =>
          rw [Engine.after, Engine.run_bind_of_error hc, Engine.after_of_error hc]
          exact .inl rfl
        | ok c w₁ =>
          rw [Engine.after, Engine.run_bind_of_ok hc, Engine.after_of_ok hc]
          exact .inr ⟨c, rfl, rfl⟩
      · exact .inl rfl
    · exact .inl rfl
  · exact .inl rfl

/-- A subscriber changes, and handles, objects and instances stay as they are. -/
theorem setSubscriber_holdings (w : World) (id : ChannelsId) (place : Nat) (home : InstallationId)
    (slot : Nat) (callback : Option ForeignValue) :
    (w.setSubscriber id place home slot callback).1.holdings = w.holdings ∧
      (w.setSubscriber id place home slot callback).1.held = w.held := by
  unfold World.setSubscriber
  split
  · exact ⟨rfl, rfl⟩
  · next c _ => exact World.prune_holdings (w.switch id place home c.installation none) home
  · next c f _ =>
    exact World.prune_holdings
      ((w.keepCallback home slot f).switch id place home c.installation (some ⟨home, slot⟩)) home

theorem promise [ObjectSteady R] (w : World) (cx : ContextId) (home : InstallationId) (slot : Nat) {id d}
    (hd : w.deferred? id = some d) : R w (w.promise cx home slot id d).1 := by
  have hadd : R w { w with
      objects := w.objects.insert { context := cx, kind := .promise (.pending []) } } :=
    addObject w (fun _ h => by cases h; rfl) rfl rfl List.nodup_nil
  have hpark : R w (w.park cx home slot id) := by
    refine trans_of R hadd (aside ?_ ?_)
    · exact ⟨rfl, rfl⟩
    · rfl
  obtain ⟨-, hp⟩ | ⟨-, hp⟩ := w.promise_posts cx home slot hd
  · have hwait : R (w.park cx home slot id) ((w.park cx home slot id).waitFor id d ⟨cx, slot⟩) :=
      aside ⟨rfl, rfl⟩ rfl
    exact trans_of R hpark (trans_of R hwait (posts hp))
  · exact trans_of R hpark (posts hp)

instance (priority := low) objectWork [ObjectSteady R] : ObjectWork R where
  allocate h := .update (fun w => addObject w h.pending h.attachment h.prototype h.names) fun _ =>
    .bind .hold fun _ => .pure
  createWithPrototype := createWithPrototype
  createArray cx items := by
    refine .bind .get fun w => .ite (fun _ => ?_) fun _ => .abort
    exact .update (fun w => addObject w nofun rfl rfl List.nodup_nil) fun _ => .bind .hold fun _ => .pure
  put := put
  wrap := wrap
  attachNew := attachNew
  modifyContext _ _ _ _ := aside ⟨rfl, rfl⟩ rfl
  note _ _ := aside ⟨rfl, rfl⟩ rfl
  install cx registry := by
    refine .bind .context fun c => .bind (.modify fun w => aside ⟨rfl, rfl⟩ rfl) fun _ => ?_
    split
    · exact .letGo
    · exact .pure
  connect := connect
  subscribe cx id signature callback := by
    refine .bind .get fun w => ?_
    split
    · split
      · exact .ite (fun _ => .pure) fun _ => .bind .bridge fun b =>
          .bind (.operate fun w => setSubscriber w _ _ _ _ _) fun _ => .pure
      · exact .pure
    · exact .abort
  complete id status v := by
    refine .now fun w => ?_
    split
    · exact Conserves.pure w
    · next done hd =>
      obtain ⟨w', more⟩ := done
      obtain ⟨d, -, -, -, hp⟩ := World.complete_posts hd
      have hfulfil : R w (w.fulfil id { status, value := v } status v) := aside ⟨rfl, rfl⟩ rfl
      exact Conserves.operate_now (trans_of R hfulfil (posts hp)) fun _ => .pure
  jobDone w := by
    have htail : R w { w with jobs := w.jobs.tail } := aside ⟨rfl, rfl⟩ rfl
    exact trans_of R htail (Releases.release _ _)
  classOf cx cls h := by
    refine .bind .bridge fun (home, i) => ?_
    dsimp only
    split
    · exact .bind .hold fun _ => .pure
    · exact .bind (h _) fun _ => .bind (.modify fun w => aside ⟨rfl, rfl⟩ rfl) fun _ => .pure
  promiseFor cx d := by
    refine .bind .bridge fun (home, i) => .now fun w => ?_
    split
    · next cell hd =>
      refine Conserves.step_now (hold w _) fun _ w' hr => ?_
      cases hr
      exact Conserves.operate_now (promise (w.holding [.object ⟨w.objects.next⟩]) cx home _ hd)
        fun _ => .pure
    · exact Conserves.abort w

/-! ## Scripts -/

variable [Steady R]

instance (priority := low) scriptWork : ScriptWork R where
  modifyRoots := modifyRoots
  createFile _ _ := aside ⟨rfl, rfl⟩ rfl
  addFinalizer := addFinalizer
  unbind _ _ _ := aside ⟨rfl, rfl⟩ rfl
  scopeDepths cx count := by
    induction count with
    | zero => exact .bind .context fun _ => .pure
    | succ count ih =>
      exact .bind .context fun _ => .bind (.modify fun _ => aside ⟨rfl, rfl⟩ rfl) fun _ => .bind ih fun _ =>
        .bind (.modify fun _ => aside ⟨rfl, rfl⟩ rfl) fun _ => .bind .context fun _ => .pure
  openContext _ _ := aside ⟨rfl, rfl⟩ rfl
  closeContext _ _ := .operate fun _ => aside ⟨rfl, rfl⟩ rfl
  useContext _ _ := aside ⟨rfl, rfl⟩ rfl
  nameHandle := nameHandle
  bindNamed := bindNamed

/-! ## Deliveries -/

section

variable {run : Runner} {cx : ContextId} {wake : Wake}

theorem unpark {slot} : Conserves R (Engine.unpark cx slot) := by
  have hunpark {home} (w : World) : R w (w.unpark cx home slot) := by
    rw [World.unpark]
    split
    · exact aside ⟨rfl, rfl⟩ rfl
    · exact aside ⟨rfl, rfl⟩ rfl
  refine .bind .bridge fun _ => .bind .hold fun _ => .bind .get fun w => .bind .hold fun _ =>
    .bind (.modify hunpark) fun _ => ?_
  split
  · exact .pure
  · exact .abort

theorem runWake (hrun : Runs R run) : Conserves R (Engine.runWake run cx wake) := by
  cases wake with
  | settle slot status v =>
    refine .bind unpark fun _ => .bind (.attempt (.toForeign hrun.answers)) fun r => ?_
    split
    · exact settle hrun _ _ _ _
    · exact settle hrun _ _ _ _
    · exact settle hrun _ _ _ _
    · exact .throw
  | event token args =>
    have hdecide {verdict} : Conserves R (modify (·.hear cx token args verdict) : Engine Unit) :=
      .modify fun _ => aside ⟨rfl, rfl⟩ rfl
    refine .bind (.attempt (.prepareEvent hrun.answers)) fun r => ?_
    split
    · exact .bind hdecide fun _ => .bind (.call hrun) fun _ => .pure
    · exact hdecide
    · exact .bind hdecide fun _ => .throw
  | script label body => exact hrun.deliver

theorem runDelivery (hrun : Runs R run) : Conserves R (Engine.runDelivery run cx wake) := by
  refine .bind (.attempt (runWake hrun)) fun r => ?_
  split
  · exact .bind .hold fun _ => .reportException
  · exact .resume

theorem deliver (hrun : Runs R run) : Conserves R (Engine.deliver run cx wake) := by
  intro w
  have hwork : Conserves R (Engine.runDelivery run cx wake) := runDelivery hrun
  have hwork := hwork { w with held := [] :: w.held }
  have hclose {w₁ : World} (h : R { w with held := [] :: w.held } w₁) (broke : Bool) :
      R w { w₁.finish cx wake broke with held := w₁.held.tail }.sweep :=
    frame h rfl rfl fun hheld => by simp only [hheld, List.Subset.refl, and_self]
  cases hr : (Engine.runDelivery run cx wake).run { w with held := [] :: w.held } with
  | ok _ w₁ =>
    rw [Engine.after_of_ok hr] at hwork
    rw [Engine.after_of_ok (Engine.run_deliver_of_ok hr)]
    exact hclose hwork false
  | error stop w₁ =>
    rw [Engine.after_of_error hr] at hwork
    rw [Engine.after_of_error (Engine.run_deliver_of_error hr)]
    exact hclose hwork true

theorem deliverNext (hrun : Runs R run) : Conserves R (Engine.deliverNext run cx) := by
  refine .now fun w => ?_
  cases hq : (w.loopOf cx).queue with
  | nil =>
    rw [World.take, hq]
    exact refl_of R w
  | cons wake rest =>
    have hpop : R w (w.pop cx wake rest) := aside ⟨rfl, rfl⟩ rfl
    rw [World.take, hq]
    exact Conserves.set_now hpop fun _ => .bind (deliver hrun) fun _ => .pure

end

/-! ## Sessions -/

instance : SessionWork R where
  newPromise cx name := .bind .createPromise fun _ => .bind .get fun _ =>
    .bind (.modify fun _ => aside ⟨rfl, rfl⟩ rfl) fun _ => .bind .letGo fun _ => .assign
  newTicket cx name loop := by
    have hrest {target : ContextId} : Conserves R (do
        let w ← MonadState.get
        if (w.loop? target).isNone then Engine.abort "loop is gone"
        modifyGet fun w : World => ((), w.newTicket name target)
        return target = cx : Engine Bool) :=
      .bind .get fun _ => .check .abort fun _ =>
        .bind (.modify fun w => posts (.newTicket w name target)) fun _ => .pure
    unfold Session.newTicket
    dsimp only
    split
    · exact .bind .named fun _ => hrest
    · exact .bind .pure fun _ => hrest
  sendTicket name label body := .bind .named fun cx =>
    .operate fun w => posts (.sendTicket w name cx label body)
  dropTicket name := .bind .named fun cx => .modify fun w => posts (.dropTicket w name cx)
  onSettled hrun cx promise r := onSettled hrun cx promise r
  settleNamed hrun cx name fulfil v :=
    .bind .takeResolver fun _ => .bind (settle hrun _ _ _ _) fun _ => .pure
  deliverNext hrun _ := deliverNext hrun

section

variable (hleave : ∀ (w : World) held log, R w { w with held, log })
include hleave

/-- A step of a session, if it does not matter to the relation what is held between steps and what was
logged. -/
theorem step (w : World) (s : Script.Step) : R w (Session.step w s).2 := by
  have hstep : Conserves R (Session.runStep (Session.runner Session.depthLimit)
    { context := w.current } s) := Conserves.runStep (runs _)
  have hconclude : Conserves R Session.conclude := by
    refine Conserves.bind (fun w => ?_) fun _ => Conserves.finishJobs
    have hclose : R w { w with held := w.held.tail } := hleave w _ _
    exact trans_of R hclose (Releases.release _ _)
  have hhold : R w { w with held := [[]] } := hleave w _ _
  have hclear (v : World) : R v { v with log := [], held := [] } := hleave v _ _
  rw [step_snd]
  exact trans_of R hhold (trans_of R (hstep _) (trans_of R (hconclude _) (hclear _)))

theorem steps (w : World) (ss : List Script.Step) : R w (Session.steps w ss).2 := by
  induction ss generalizing w with
  | nil => exact refl_of R w
  | cons s ss ih => exact trans_of R (step hleave w s) (ih _)

end

end Steady

end Isthmus
