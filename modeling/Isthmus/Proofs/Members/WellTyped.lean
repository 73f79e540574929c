import Isthmus.Proofs.Lifetime.Steady
import Isthmus.Proofs.Members.Calls

/-!
# Proofs/Members/WellTyped — handles are for instances of their classes

A handle belongs to a class, and code of that class relies on the instance behind it being one of the class.
A world in which that is so for every handle is `World.WellTyped`.

* `World.Sustains` — what an action does to instances: those that are held stay, each one of its class.
* `Conserves.wellTyped` — so an action leads from well-typed worlds to well-typed worlds.
* `Session.wellTyped` — and a session comes to well-typed worlds only.

A handle refers to its instance, so the instance stays as long as the handle does; and a handle is made only
for an instance that is there, or that has been held since it was found to be there.
-/

namespace Isthmus

open World

/-! ## Well-typed worlds -/

namespace World

variable {w w' : World} {cx : ContextId} {cls : ClassKey} {inst : InstanceId} {obj : ObjectId}

/-- Every handle is for an instance of its class. -/
def WellTyped (w : World) : Prop :=
  ∀ id x, w.handle? id = some x → w.IsOf x.cls x.inst

theorem IsOf.of_eq (h : w.IsOf cls inst) (hi : w'.instances = w.instances) : w'.IsOf cls inst := by
  rw [IsOf, instance?, hi]
  exact h

/-- An instance that has an owner left stays. -/
theorem IsOf.release (h : w.IsOf cls inst) {fs : List Farewell}
    (ho : .inst inst ∈ (w.release fs).references) : (w.release fs).IsOf cls inst := by
  obtain ⟨i, hi, hc⟩ := Option.bind_eq_some_iff.1 h
  have hstays := (sparesOwned_release w fs).contains _ ho (Store.contains_of_get? hi)
  rw [contains, Store.contains_eq_isSome] at hstays
  obtain ⟨i', hi'⟩ := Option.isSome_iff_exists.1 hstays
  cases hi.symm.trans ((Thins.release w fs).instances _ _ hi')
  exact Option.bind_eq_some_iff.2 ⟨i, hi', hc⟩

theorem IsOf.addInstance (h : w.IsOf cls inst) (i : Instance) :
    { w with instances := w.instances.insert i }.IsOf cls inst := by
  obtain ⟨j, hj, hc⟩ := Option.bind_eq_some_iff.1 h
  refine Option.bind_eq_some_iff.2 ⟨j, ?_, hc⟩
  rw [instance?, Store.get?_insert, if_neg (Nat.ne_of_lt (Store.lt_next_of_get? hj))]
  exact hj

/-- An instance changes, and stays one of its class. -/
theorem IsOf.setInstance (h : w.IsOf cls inst) {id : InstanceId} {before after : Instance}
    (hi : w.instance? id = some before) (hc : after.class? = before.class?) :
    { w with instances := w.instances.modify id.index fun _ => after }.IsOf cls inst := by
  obtain ⟨j, hj, hcls⟩ := Option.bind_eq_some_iff.1 h
  rw [IsOf, instance?, Store.get?_modify]
  split
  · next heq =>
    obtain rfl : inst = id := InstanceId.index_inj.1 heq
    cases hi.symm.trans hj
    exact Option.bind_eq_some_iff.2 ⟨after, congrArg (Option.map _) hj, hc.trans hcls⟩
  · exact h

namespace WellTyped

theorem initial (plans : Plans) : ({ plans } : World).WellTyped :=
  nofun

theorem of_eq (h : w.WellTyped) (hh : w'.handles = w.handles) (hi : w'.instances = w.instances) :
    w'.WellTyped := by
  intro id x hx
  rw [handle?, hh] at hx
  exact (h id x hx).of_eq hi

theorem release (h : w.WellTyped) (fs : List Farewell) : (w.release fs).WellTyped := fun id x hx =>
  (h id x ((Thins.release w fs).handles _ _ hx)).release (mem_references_of_handle hx)

/-- **The instance behind a value of a class is one of the class.** -/
theorem isOf (h : w.WellTyped) {v : ForeignValue} {x : Handle} (hx : w.handleFor cx cls v = .ok x) :
    w.IsOf cls x.inst := by
  cases v with
  | object id =>
    obtain ⟨o, hid, -, -, -, hhandle, rfl⟩ := Engine.bound_of_handleFor hx
    exact h _ _ hhandle
  | _ => cases hx

end WellTyped

/-! ## What an action sustains -/

/-- What the actions outside hold stays held, instances that are held stay instances of their classes, and
so do those of handles. -/
structure Sustains (w w' : World) : Prop where
  tail : w'.held.tail = w.held.tail
  held : w.held.flatten ⊆ w'.held.flatten
  isOf : ∀ {cls inst}, w.IsOf cls inst → .inst inst ∈ w.held.flatten → w'.IsOf cls inst
  wellTyped : w.WellTyped → w'.WellTyped

namespace Sustains

instance : IsPreorder World Sustains where
  refl _ := ⟨rfl, List.Subset.refl _, fun h _ => h, id⟩
  trans _ _ _ h h' := ⟨h'.tail.trans h.tail, fun _ hr => h'.held (h.held hr),
    fun hi hh => h'.isOf (h.isOf hi hh) (h.held hh), h'.wellTyped ∘ h.wellTyped⟩

/-- Handles and instances stay as they are, and nothing is let go of. -/
theorem of_eq (hh : w'.handles = w.handles) (hi : w'.instances = w.instances) (he : w'.held = w.held) :
    w.Sustains w' where
  tail := congrArg _ he
  held := by
    rw [he]
    exact List.Subset.refl _
  isOf h _ := h.of_eq hi
  wellTyped h := h.of_eq hh hi

theorem of_holdings (h : w'.holdings = w.holdings ∧ w'.held = w.held) : w.Sustains w' := by
  simp only [holdings, Prod.mk.injEq] at h
  obtain ⟨⟨-, hh, hi, -⟩, he⟩ := h
  exact of_eq hh hi he

/-- Handles come for instances of their classes, or change but for what they are for. -/
theorem handles {handles : Store Handle} (h : ∀ id x', { w with handles }.handle? id = some x' →
    w.IsOf x'.cls x'.inst ∨ ∃ x, w.handle? id = some x ∧ x'.cls = x.cls ∧ x'.inst = x.inst) :
    w.Sustains { w with handles } where
  tail := rfl
  held := List.Subset.refl _
  isOf h _ := h
  wellTyped hw id x' hx' := by
    obtain hi | ⟨x, hx, hcls, hinst⟩ := h id x' hx'
    · exact hi
    · rw [hcls, hinst]
      exact hw id x hx

theorem addHandle (hi : w.IsOf cls inst) (ownership : Ownership) :
    w.Sustains { w with handles := w.handles.insert { cls, inst, ownership } } := by
  refine handles fun id x hx => ?_
  rw [handle?, Store.get?_insert] at hx
  split at hx
  · cases hx
    exact .inl hi
  · exact .inr ⟨x, hx, rfl, rfl⟩

theorem modifyHandle (w : World) (id : HandleId) {f : Handle → Handle}
    (hf : ∀ x, (f x).cls = x.cls ∧ (f x).inst = x.inst) :
    w.Sustains { w with handles := w.handles.modify id.index f } := by
  refine handles fun id' x' hx' => .inr ?_
  rw [handle?, Store.get?_modify] at hx'
  split at hx'
  · obtain ⟨x, hx, rfl⟩ := Option.map_eq_some_iff.1 hx'
    exact ⟨x, hx, hf x⟩
  · exact ⟨x', hx', rfl, rfl⟩

theorem instances {instances : Store Instance}
    (h : ∀ {cls inst}, w.IsOf cls inst → { w with instances }.IsOf cls inst) :
    w.Sustains { w with instances } where
  tail := rfl
  held := List.Subset.refl _
  isOf hi _ := h hi
  wellTyped hw id x hx := h (hw id x hx)

instance : Releases Sustains where
  release w fs := by
    have hheld : (w.release fs).held = w.held := (Thins.release w fs).held
    refine ⟨congrArg _ hheld, hheld ▸ List.Subset.refl _, fun hi hh => hi.release ?_, fun h => h.release fs⟩
    rw [← hheld] at hh
    simp only [references, List.mem_append, hh, or_true, true_or]

instance : NativeSteady Sustains where
  aside h _ := of_holdings h
  hold w refs := ⟨Engine.held_holding w refs, fun _ hr => mem_holding.2 (.inr hr), fun h _ => h, id⟩
  frame {w w₁ w₂} h h₂ _ hh := by
    obtain ⟨htail, hheld⟩ := hh h.tail
    simp only [holdings, Prod.mk.injEq] at h₂
    obtain ⟨-, hhandles, hinstances, -⟩ := h₂
    have hall : w.Sustains w₂ := ⟨htail, hheld, fun hi hr => (h.isOf hi hr).of_eq hinstances,
      fun hw => (h.wellTyped hw).of_eq hhandles hinstances⟩
    exact trans_of _ hall (Releases.release _ _)
  addInstance _ i := instances fun h => h.addInstance i
  setInstance hi hc := instances fun h => h.setInstance hi hc

/-! ## Sessions -/

theorem modifyObject {f : Object → Object} : Conserves Sustains (Engine.modifyObject obj f) :=
  .modify fun _ => of_eq rfl rfl rfl

theorem wrap {data : Attachment} : Conserves Sustains (Engine.wrap cx obj data) :=
  .wrapWith modifyObject

theorem bindHandle {id : HandleId} : Conserves Sustains (Engine.bindHandle cx id obj) :=
  .bindHandleWith wrap (.modify fun w => modifyHandle w id fun _ => ⟨rfl, rfl⟩)

theorem attach {id : HandleId} (h : ∀ ds, Conserves Sustains (Engine.defineAll cx obj ds)) :
    Conserves Sustains (Engine.attach cx cls obj id) :=
  .attachWith (fun _ _ w => of_holdings (Steady.connect_holdings w))
    (fun _ => .modify fun w => modifyHandle w id fun _ => ⟨rfl, rfl⟩) bindHandle h

/-- A handle may be attached for an instance of its class, or for one that was held when it was found to be
of the class. -/
theorem admits (cx : ContextId) (cls : ClassKey) (ownership : Ownership) :
    Admits Sustains cx cls ownership fun w inst => w.IsOf cls inst ∧ .inst inst ∈ w.held.flatten where
  held hi hh := ⟨hi, hh⟩
  lasts h hf := ⟨h.isOf hf.1 hf.2, h.held hf.2⟩
  attachNew {w inst obj} hf hd := by
    have hi : w.IsOf cls inst := hf.elim id And.left
    exact Conserves.step_now (addHandle hi ownership) fun id w' _ => attach hd w'

theorem observe {promise : ObjectId} {e : PromiseEvent} : Conserves Sustains (Engine.observe promise e) :=
  .modify fun _ => of_eq rfl rfl rfl

instance : Isthmus.Steady Sustains where
  addObject _ _ _ _ _ _ := of_eq rfl rfl rfl
  createWithPrototype _ _ :=
    .withPrototype (.update (fun _ => of_eq rfl rfl rfl) fun _ => .bind .hold fun _ => .pure)
  put _ _ _ := modifyObject
  addFinalizer _ _ _ := .bind .checkOwned fun _ => modifyObject
  wrap _ _ _ := wrap
  attachNew cx cls ownership := ⟨_, admits cx cls ownership⟩
  connect _ _ _ w := of_holdings (Steady.connect_holdings w)
  setSubscriber w _ _ _ _ _ := of_holdings (Steady.setSubscriber_holdings w ..)
  modifyRoots _ := .modify fun _ => of_eq rfl rfl rfl
  nameHandle _ _ _ ownership _ hi :=
    Conserves.nameHandleWith (fun _ => .modify fun _ => of_eq rfl rfl rfl) (addHandle hi ownership)
  bindNamed _ _ _ := .bindNamedWith (fun _ => .modify fun _ => of_eq rfl rfl rfl) fun _ => bindHandle
  settle hrun _ _ _ _ := .settleWith hrun (fun _ => modifyObject) fun _ => observe
  onSettled hrun _ _ _ := .onSettledWith hrun (fun _ => modifyObject) fun _ => observe

end Sustains

end World

/-- An action that sustains instances leads from well-typed worlds to well-typed worlds. -/
theorem Conserves.wellTyped {α : Type} {m : Engine α} (hm : Conserves Sustains m) {w : World}
    (h : w.WellTyped) : (m.after w).WellTyped :=
  (hm w).wellTyped h

namespace Session

variable {w : World}

theorem wellTyped_step (h : w.WellTyped) (s : Script.Step) : (step w s).2.WellTyped := by
  have hstep : Conserves Sustains (runStep (runner depthLimit) { context := w.current } s) :=
    .runStep (runs _)
  have hfinish : Conserves Sustains Engine.finishJobs := .finishJobs
  have hrun := hstep.wellTyped (w := { w with held := [[]] }) (h.of_eq rfl rfl)
  rw [step_snd]
  generalize (runStep _ _ s).after _ = w₁ at hrun
  -- the frame of the step is closed, and what it held goes
  have hclose : { w₁ with held := w₁.held.tail }.sweep.WellTyped :=
    WellTyped.release (w := { w₁ with held := w₁.held.tail }) (hrun.of_eq rfl rfl) _
  have hconclude : (conclude.after w₁).WellTyped := hfinish.wellTyped hclose
  exact hconclude.of_eq rfl rfl

/-- **A session comes to well-typed worlds only**: every handle is for an instance of its class. -/
theorem wellTyped (plans : Plans) (ss : List Script.Step) : (steps { plans } ss).2.WellTyped := by
  have hall (w : World) (h : w.WellTyped) : (steps w ss).2.WellTyped := by
    induction ss generalizing w with
    | nil => exact h
    | cons s ss ih => exact ih _ (wellTyped_step h s)
  exact hall _ (.initial plans)

end Session

end Isthmus
