import Isthmus.Proofs.Lifetime.Steady
import Isthmus.Proofs.Members.Making

/-!
# Proofs/Heap/Steps — how objects come, change and go

Whatever a session does, the objects of its world change in a few ways only: each is a `HeapStep`.  An
object is added with a prototype that is there already, and never gets another; its properties change one
at a time; and it goes when nothing refers to it.

* `Conserves.heap` — the steps of a script are heap steps, however they end.
* `World.Built` — the worlds that heap steps lead to; those of sessions are among them (`built_session`).
-/

namespace Isthmus

open World

/-- **One step of the heap.** -/
inductive HeapStep (w : World) : World → Prop where
  /-- The objects stay as they were, whatever else changes. -/
  | aside {w' : World} (h : w'.objects = w.objects) : HeapStep w w'
  /-- An object is added whose prototype is there; no two of its properties have the same name. -/
  | create {o : Object} (hp : ∀ p, o.prototype = some p → ∃ q, w.object? p = some q)
      (hn : (o.properties.map (·.1)).Nodup) : HeapStep w { w with objects := w.objects.insert o }
  | put (id : ObjectId) (name : String) (p : Property) :
      HeapStep w { w with objects := w.objects.modify id.index (·.put name p) }
  /-- An object changes, but neither in its prototype nor in its properties. -/
  | change (id : ObjectId) {f : Object → Object}
      (hf : ∀ o, (f o).prototype = o.prototype ∧ (f o).properties = o.properties) :
      HeapStep w { w with objects := w.objects.modify id.index f }
  /-- Something goes that nothing refers to. -/
  | destroy {r : Ref} (hr : r ∉ w.references) : HeapStep w (w.destroy r).1

/-- Heap steps, one after the other. -/
def HeapSteps : World → World → Prop :=
  Relation.ReflTransGen HeapStep

namespace HeapSteps

variable {w w' : World} {cx : ContextId} {id : HandleId} {obj : ObjectId}

instance : IsPreorder World HeapSteps where
  refl _ := .refl
  trans _ _ _ := .trans

theorem single (h : HeapStep w w') : HeapSteps w w' :=
  Relation.ReflTransGen.single h

theorem of_eq (h : w'.objects = w.objects) : HeapSteps w w' :=
  single (.aside h)

instance : Releases HeapSteps where
  release := World.release_induction (fun _ _ => of_eq rfl) fun _ _ hr => single (.destroy hr)

instance : NativeSteady HeapSteps where
  aside h _ := of_eq (congrArg Prod.fst h.1)
  hold _ _ := of_eq rfl
  frame {w _ w₂} h h₂ _ _ := by
    have hopen : HeapSteps w { w with held := [] :: w.held } := of_eq rfl
    have hend : HeapSteps w w₂ := trans_of _ (trans_of _ hopen h) (of_eq (congrArg Prod.fst h₂))
    exact trans_of _ hend (Releases.release _ _)
  addInstance _ _ := of_eq rfl
  setInstance _ _ := of_eq rfl

theorem change {f : Object → Object}
    (hf : ∀ o, (f o).prototype = o.prototype ∧ (f o).properties = o.properties) :
    Conserves HeapSteps (Engine.modifyObject obj f) :=
  .modify fun _ => single (.change obj hf)

theorem wrap {data} : Conserves HeapSteps (Engine.wrap cx obj data) :=
  .wrapWith (change fun _ => ⟨rfl, rfl⟩)

theorem bindHandle : Conserves HeapSteps (Engine.bindHandle cx id obj) :=
  .bindHandleWith wrap (.modify fun _ => of_eq rfl)

theorem connect {d source} : Conserves HeapSteps (Engine.connect cx d source) :=
  fun w => of_eq (congrArg Prod.fst (Steady.connect_holdings w).1)

theorem attach {cls} (h : ∀ ds, Conserves HeapSteps (Engine.defineAll cx obj ds)) :
    Conserves HeapSteps (Engine.attach cx cls obj id) :=
  .attachWith (fun _ _ => connect) (fun _ => .modify fun _ => of_eq rfl) bindHandle h

/-- An object is added with a prototype that was found to be there. -/
theorem createWithPrototype {proto} : Conserves HeapSteps (Engine.createWithPrototype cx proto) := by
  have hadd {w : World} (hp : ∀ p, proto = some p → ∃ q, w.object? p = some q) :
      HeapSteps w ((Engine.allocate { context := cx, prototype := proto }).after w) := by
    have hcreate := single (.create (o := { context := cx, prototype := proto }) hp List.nodup_nil)
    rw [Engine.after_of_ok (Engine.run_allocate _)]
    refine trans_of _ hcreate (of_eq ?_)
    rfl
  cases proto with
  | none => exact fun w => hadd nofun
  | some p =>
    refine .bind' .checkOwned fun w _ w' hown => ?_
    obtain ⟨rfl, q, hq, -⟩ := Engine.checkOwned_ok hown
    refine hadd fun p' hp => ?_
    cases hp
    exact ⟨q, hq⟩

instance : Steady HeapSteps where
  addObject _ _ _ _ hp hn := single (.create (fun _ h => nomatch hp.symm.trans h) hn)
  createWithPrototype _ _ := createWithPrototype
  put id name p := .modify fun _ => single (.put id name p)
  addFinalizer _ _ _ := .bind .checkOwned fun _ => change fun _ => ⟨rfl, rfl⟩
  wrap _ _ _ := wrap
  attachNew _ _ _ := ⟨_, .of_conserves fun _ _ h => .bind (fun _ => of_eq rfl) fun _ => attach h⟩
  connect _ _ _ := connect
  setSubscriber w _ _ _ _ _ := of_eq (congrArg Prod.fst (Steady.setSubscriber_holdings w ..).1)
  modifyRoots _ := .modify fun _ => of_eq rfl
  nameHandle _ _ _ _ _ _ := Conserves.nameHandleWith (fun _ => .modify fun _ => of_eq rfl) (of_eq rfl)
  bindNamed _ _ _ := .bindNamedWith (fun _ => .modify fun _ => of_eq rfl) fun _ => bindHandle
  settle hrun _ _ _ _ := .settleWith hrun (fun _ => change fun _ => ⟨rfl, rfl⟩) fun _ =>
    .modify fun _ => of_eq rfl
  onSettled hrun _ _ _ := .onSettledWith hrun (fun _ => change fun _ => ⟨rfl, rfl⟩) fun _ =>
    .modify fun _ => of_eq rfl

/-- **What a session does to objects**: heap steps. -/
theorem step (w : World) (s : Script.Step) : HeapSteps w (Session.step w s).2 :=
  Steady.step (fun _ _ _ => of_eq rfl) w s

theorem steps (w : World) (ss : List Script.Step) : HeapSteps w (Session.steps w ss).2 :=
  Steady.steps (fun _ _ _ => of_eq rfl) w ss

end HeapSteps

/-! ## The worlds that heap steps lead to -/

namespace World

/-- Heap steps lead to the world. -/
def Built (w : World) : Prop :=
  ∃ plans, HeapSteps { plans } w

theorem Built.steps {w w' : World} (h : w.Built) (hs : HeapSteps w w') : w'.Built :=
  let ⟨plans, h⟩ := h
  ⟨plans, trans_of _ h hs⟩

/-- What holds in a world without objects and is kept by heap steps holds in every world that they lead
to. -/
theorem Built.rec' {P : World → Prop} (hstart : ∀ plans, P { plans })
    (hstep : ∀ w w', P w → HeapStep w w' → P w') {w : World} (h : w.Built) : P w := by
  obtain ⟨plans, h⟩ := h
  induction h with
  | refl => exact hstart plans
  | tail _ h ih => exact hstep _ _ ih h

end World

/-- **Every world of a session is built by heap steps.** -/
theorem built_session {plans setup} {w : World} (h : Session.start plans setup = .ok w)
    (ss : List Script.Step) : (Session.steps w ss).2.Built := by
  have hnew : World.Built { plans } := ⟨plans, refl_of HeapSteps _⟩
  refine World.Built.steps ?_ (HeapSteps.steps w ss)
  rw [Session.start] at h
  split at h
  · cases h
  · next hs =>
    cases h
    have hfirst := HeapSteps.step { plans } (.mk (.onContext (.create "main" setup)) none)
    rw [hs] at hfirst
    exact hnew.steps hfirst

/-- **So is every world in the middle of a session**: whatever a script runs starts from one and ends in
one. -/
theorem World.Built.after_runStep {w : World} (h : w.Built) {n : Nat} {frame : Session.Frame}
    (s : Script.Step) : ((Session.runStep (Session.runner n) frame s).after w).Built :=
  h.steps (Conserves.runStep (runs n) w)

end Isthmus
