import Isthmus.Proofs.Lifetime.Steady
import Isthmus.Proofs.Values.Traces

/-!
# Proofs/Members/Unwritten — giving foreign code an object writes to no instance

What native code gives back becomes foreign by way of new objects, new handles, new classes and new
promises, and things may go on the way that nothing refers to any more.  Of what native code has in stock,
instances and storages, nothing changes but that some may go (`ForeignWork.of_stock`).  No native instance is
written to, unless by foreign code that runs meanwhile (`Answers`): a getter in the place of a prototype.
-/

namespace Isthmus

open World

/-! ## What matters of native code -/

section

variable {R : World → World → Prop} [Releases R]
  (hstock : ∀ w w' : World, w'.instances = w.instances → w'.storages = w.storages → R w w')
include hstock

/-- A relation to which nothing but instances and storages matters, and which holds for a release, holds for
keeping things and for letting go of them. -/
theorem Holds.of_stock : Holds R where
  hold _ _ := hstock _ _ rfl rfl
  letGo _ _ := Releases.release _ _
  framed {α m} h w := by
    obtain ⟨held, hafter, -⟩ := Engine.after_framed m w
    have hopen : R w { w with held := [] :: w.held } := hstock _ _ rfl rfl
    have hclose (w₁ : World) : R w₁ { w₁ with held } := hstock _ _ rfl rfl
    rw [hafter]
    exact trans_of R (trans_of R hopen (h _)) (trans_of R (hclose _) (Releases.release _ _))

/-- It also holds for all that is done to give foreign code an object. -/
theorem ForeignWork.of_stock : ForeignWork R := by
  have hholds : Holds R := .of_stock hstock
  have hobject {id f} : Conserves R (Engine.modifyObject id f) := .modify fun _ => hstock _ _ rfl rfl
  have hhandle {id f} : Conserves R (Engine.modifyHandle id f) := .modify fun _ => hstock _ _ rfl rfl
  have hadd {o} : Conserves R (Engine.allocate o) :=
    .update (fun _ => hstock _ _ rfl rfl) fun _ => .bind .hold fun _ => .pure
  have hconnect {cx d source} : Conserves R (Engine.connect cx d source) := by
    refine .now fun w => ?_
    dsimp only
    split
    · exact Conserves.set_now (hstock _ _ rfl rfl) fun _ => .pure
    · exact Conserves.set_now (hstock _ _ rfl rfl) fun _ => .bind .bridge fun _ => .pure
  refine
    { allocate := fun _ => hadd
      createWithPrototype := fun _ _ => .withPrototype hadd
      createArray := fun _ _ => .bind .get fun _ => .ite (fun _ => hadd) fun _ => .abort
      put := fun _ _ _ => hobject
      attachNew := fun _ _ _ => ⟨_, .of_conserves fun _ _ h =>
        .bind (fun _ => hstock _ _ rfl rfl) fun _ => .attachWith (fun _ _ => hconnect) (fun _ => hhandle)
          (.bindHandleWith (.wrapWith hobject) hhandle) h⟩
      classOf := fun cx cls h => .bind .bridge fun b => ?_
      promiseFor := fun cx d => .bind .bridge fun b => .now fun w => ?_ }
  · dsimp only
    split
    · exact .bind .hold fun _ => .pure
    · exact .bind (h _) fun _ => .bind (.modify fun _ => hstock _ _ rfl rfl) fun _ => .pure
  · dsimp only
    split
    · next cell hd =>
      refine Conserves.step_now (hstock _ _ rfl rfl) fun _ w' hr => ?_
      cases hr
      refine Conserves.operate_now (hstock _ _ ?_ ?_) fun _ => .pure
      · exact And.left (promise_stock hd)
      · exact And.right (promise_stock hd)
    · exact Conserves.abort w

end

/-! ## Instances -/

/-- Instances may come and go, but none is written to. -/
structure World.Unwritten (w w' : World) : Prop where
  next_le : w.instances.next ≤ w'.instances.next
  instance? : ∀ id : InstanceId, id.index < w.instances.next →
    ∀ i, w'.instance? id = some i → w.instance? id = some i

namespace World.Unwritten

variable {w w' : World} {cx : ContextId}

instance : IsPreorder World Unwritten where
  refl _ := ⟨Nat.le_refl _, fun _ _ _ h => h⟩
  trans _ _ _ h h' :=
    ⟨Nat.le_trans h.next_le h'.next_le, fun id hid i hi =>
      h.instance? id hid i (h'.instance? id (Nat.lt_of_lt_of_le hid h.next_le) i hi)⟩

theorem of_eq (h : w'.instances = w.instances) : w.Unwritten w' where
  next_le := Nat.le_of_eq (congrArg Store.next h.symm)
  instance? id _ i hi := by rwa [World.instance?, h] at hi

instance : Releases Unwritten where
  release w fs :=
    have h := Thins.release w fs
    ⟨Nat.le_of_eq h.instances_next.symm, fun id _ => h.instances id.index⟩

instance : Makes Unwritten where
  createBuffer _ _ _ := of_eq rfl
  createSource _ := of_eq rfl
  createInstanceOf i w := by
    refine ⟨Nat.le_succ _, fun id hid i hi => ?_⟩
    change (w.instances.insert _).get? id.index = some i at hi
    rwa [Store.get?_insert, if_neg (Nat.ne_of_lt hid)] at hi

instance : ForeignWork Unwritten :=
  .of_stock fun _ _ hi _ => of_eq hi

end World.Unwritten

end Isthmus
