import Isthmus.Proofs.Run.Deferreds
import Isthmus.Proofs.Run.Effects
import Mathlib.Data.Fintype.EquivFin

/-!
# Proofs/Lifetime/Release — what goes when owners let go

A thing that is let go of goes exactly if nothing refers to it any more.  What a destroyed thing referred
to is either still referred to or is let go of in turn (`mem_references_destroy`), and a release comes to
an end, so it leaves nothing behind without an owner that had one before.

* `contains_letGo_iff` — of the things that are let go of, those stay that have an owner left.
* `contains_release` — nothing goes that has an owner in the end.
* `unowned_sweep` — a sweep leaves nothing without an owner.
* `release_object` — an object that goes lets go of its native data first, then reports its finalizers in
  the order in which they were added, and then lets go of its contents.
-/

namespace Isthmus

/-! ## Stores -/

namespace Store

variable {α : Type} {s : Store α} {key : Nat} {a : α}

/-- A key is there when something is found under it. -/
theorem contains_eq_isSome (s : Store α) (key : Nat) : s.contains key = (s.get? key).isSome := by
  rw [contains, get?, Option.isSome_map, Bool.eq_iff_iff, List.any_eq_true, List.find?_isSome]

/-- A key that goes is gone, and the others stay. -/
theorem contains_erase (s : Store α) (key other : Nat) :
    (s.erase key).contains other = (s.contains other && decide (other ≠ key)) := by
  rw [contains_eq_isSome, contains_eq_isSome, get?_erase]
  split
  · next h => simp [h]
  · next h => simp [h]

/-- The keys of a store are those that are there. -/
theorem mem_keys : key ∈ s.keys ↔ s.contains key := by
  simp [keys, contains]

@[simp] theorem contains_modify (s : Store α) (key other : Nat) (f : α → α) :
    (s.modify key f).contains other = s.contains other := by
  rw [contains_eq_isSome, contains_eq_isSome, isSome_get?_modify]

/-- What the things in a store refer to, if one of them goes. -/
theorem mem_flatMap_erase {f : α → List Ref} {r : Ref} (h : s.get? key = some a) :
    r ∈ s.values.flatMap f ↔ r ∈ (s.erase key).values.flatMap f ∨ r ∈ f a := by
  simp only [List.mem_flatMap, mem_values, get?_erase]
  constructor
  · rintro ⟨b, ⟨k, hb⟩, hr⟩
    by_cases hk : k = key
    · rw [hk, h] at hb
      exact .inr (Option.some.inj hb ▸ hr)
    · exact .inl ⟨b, ⟨k, by rw [if_neg hk, hb]⟩, hr⟩
  · rintro (⟨b, ⟨k, hb⟩, hr⟩ | hr)
    · split at hb
      · cases hb
      · exact ⟨b, ⟨k, hb⟩, hr⟩
    · exact ⟨a, ⟨key, h⟩, hr⟩

/-- What the things in a store refer to, if one of them refers to less. -/
theorem mem_flatMap_modify {f : α → List Ref} {g : α → α} {r : Ref} {lost : List Ref}
    (h : s.get? key = some a) (hg : r ∈ f a ↔ r ∈ f (g a) ∨ r ∈ lost) :
    r ∈ s.values.flatMap f ↔ r ∈ (s.modify key g).values.flatMap f ∨ r ∈ lost := by
  simp only [List.mem_flatMap, mem_values, get?_modify]
  constructor
  · rintro ⟨b, ⟨k, hb⟩, hr⟩
    by_cases hk : k = key
    · rw [hk, h] at hb
      rw [← Option.some.inj hb, hg] at hr
      exact hr.imp_left fun hr => ⟨g a, ⟨key, by rw [if_pos rfl, h]; rfl⟩, hr⟩
    · exact .inl ⟨b, ⟨k, by rw [if_neg hk, hb]⟩, hr⟩
  · rintro (⟨b, ⟨k, hb⟩, hr⟩ | hr)
    · split at hb
      · next hk =>
        rw [hk, h] at hb
        cases hb
        exact ⟨a, ⟨key, h⟩, hg.2 (.inl hr)⟩
      · exact ⟨b, ⟨k, hb⟩, hr⟩
    · exact ⟨a, ⟨key, h⟩, hg.2 (.inr hr)⟩

/-- Things in a store lead to finitely many others, so that comes to an end if nothing leads to itself. -/
theorem acc_of_acyclic {κ : Type} {name : κ → Nat} (hname : Function.Injective name)
    {r : κ → κ → Prop} {p : κ → Prop} (hp : ∀ k, p k → (s.get? (name k)).isSome)
    (hr : ∀ k k', p k → r k k' → p k') (ha : ∀ k, p k → ¬ Relation.TransGen r k k) {k : κ} (hk : p k) :
    Acc (fun k' k => r k k') k := by
  have hlt (k : { k // p k }) : name k.1 < s.next := by
    obtain ⟨a, ha⟩ := Option.isSome_iff_exists.1 (hp k.1 k.2)
    exact lt_next_of_get? ha
  have hfinite : Finite { k // p k } := by
    refine Finite.of_injective (fun k => (⟨name k.1, hlt k⟩ : Fin s.next)) fun k k' h => ?_
    exact Subtype.ext (hname (congrArg Fin.val h))
  let inside (k' k : { k // p k }) : Prop := Relation.TransGen r k.1 k'.1
  have htrans : IsTrans _ inside := ⟨fun _ _ _ h h' => h'.trans h⟩
  have hirrefl : Std.Irrefl inside := ⟨fun k => ha k.1 k.2⟩
  have hwf := Finite.wellFounded_of_trans_of_irrefl inside
  suffices h : ∀ k : { k // p k }, Acc (fun k' k => r k k') k.1 from h ⟨k, hk⟩
  intro k
  induction k using hwf.induction with
  | _ k ih => exact ⟨k.1, fun k' h => ih ⟨k', hr k.1 k' k.2 h⟩ (.single h)⟩

end Store

/-! ## One thing goes -/

/-- Handles are told apart by their number. -/
theorem HandleId.index_inj {h h' : HandleId} : h.index = h'.index ↔ h = h' := by
  rw [HandleId.mk.injEq]

/-- Instances are told apart by their number. -/
theorem InstanceId.index_inj {i i' : InstanceId} : i.index = i'.index ↔ i = i' := by
  rw [InstanceId.mk.injEq]

/-- Sources are told apart by their number. -/
theorem SourceId.index_inj {s s' : SourceId} : s.index = s'.index ↔ s = s' := by
  rw [SourceId.mk.injEq]

/-- Channels are told apart by their number. -/
theorem ChannelsId.index_inj {c c' : ChannelsId} : c.index = c'.index ↔ c = c' := by
  rw [ChannelsId.mk.injEq]

namespace World

variable {w : World} {r : Ref}

/-- To take away what is not there takes nothing away. -/
theorem contains_of_absent {x : Ref} (h : w.contains x = false) :
    w.contains r = (w.contains r && decide (r ≠ x)) := by
  by_cases hx : r = x
  · rw [hx, h]
    rfl
  · simp [hx]

/-- To queue a wake takes nothing away. -/
theorem contains_post (w : World) (cx : ContextId) (wake : Wake) (r : Ref) :
    (w.post cx wake).1.contains r = w.contains r := by
  rw [post]
  split
  · cases r <;> rfl
  · cases r <;> rfl

/-- Forgetting callbacks takes nothing away. -/
theorem contains_prune (w : World) (id : InstallationId) (r : Ref) :
    (w.prune id).1.contains r = w.contains r := by
  rw [prune]
  split
  · rfl
  · cases r <;> simp [contains, forget]

/-- A thing that is destroyed is gone, and nothing else is. -/
theorem contains_destroy (w : World) (x r : Ref) :
    (w.destroy x).1.contains r = (w.contains r && decide (r ≠ x)) := by
  have hgone {α : Type} {s : Store α} {key : Nat} (h : s.get? key = none) : s.contains key = false := by
    rw [Store.contains_eq_isSome, h]
    rfl
  cases x with
  | object id =>
    rw [destroy]
    split
    · next h => exact contains_of_absent (hgone h)
    · cases r <;> simp [contains, Store.contains_erase, ObjectId.index_inj]
  | handle id =>
    rw [destroy]
    split
    · next h => exact contains_of_absent (hgone h)
    · cases r <;> simp [contains, Store.contains_erase, HandleId.index_inj]
  | inst id =>
    rw [destroy]
    split
    · next h => exact contains_of_absent (hgone h)
    · cases r <;> simp [contains, Store.contains_erase, InstanceId.index_inj]
  | deferred id =>
    rw [destroy]
    split
    · next h => exact contains_of_absent (hgone h)
    · split
      · rw [contains_post]
        cases r <;> simp [contains, expire, Store.contains_erase, DeferredId.index_inj]
      · cases r <;> simp [contains, Store.contains_erase, DeferredId.index_inj]
  | source id =>
    rw [destroy]
    split
    · cases r <;> simp [contains, Store.contains_erase, SourceId.index_inj]
    · next h => exact contains_of_absent (Bool.eq_false_iff.2 h)
  | channels id =>
    rw [destroy]
    split
    · next h => exact contains_of_absent (hgone h)
    · dsimp only
      rw [contains_prune]
      cases r <;> simp [contains, disconnect, Store.contains_erase, ChannelsId.index_inj]
  | installation id =>
    rw [destroy]
    split
    · next h => exact contains_of_absent (hgone h)
    · cases r <;> simp [contains, Store.contains_erase, InstallationId.index_inj]
  | storage id =>
    rw [destroy]
    split
    · next h => exact contains_of_absent (hgone h)
    · cases r <;> simp [contains, Store.contains_erase]

/-- What is let go is among the farewells. -/
theorem mem_letGo {refs : List Ref} : Farewell.letGo r ∈ refs.map Farewell.letGo ↔ r ∈ refs := by
  simp

/-- What an object refers to is referred to. -/
theorem mem_references_of_object {id : ObjectId} {o} (h : w.object? id = some o) {x : Ref}
    (hx : x ∈ o.refs) : x ∈ w.references := by
  have hm : x ∈ w.objects.values.flatMap Object.refs :=
    List.mem_flatMap.2 ⟨o, Store.mem_values.2 ⟨id.index, h⟩, hx⟩
  simp only [references, List.mem_append, hm, true_or, or_true]

/-- A handle refers to its instance. -/
theorem mem_references_of_handle {id : HandleId} {x} (h : w.handle? id = some x) :
    .inst x.inst ∈ w.references := by
  have hm : .inst x.inst ∈ w.handles.values.flatMap Handle.refs :=
    List.mem_flatMap.2 ⟨x, Store.mem_values.2 ⟨id.index, h⟩, List.mem_cons_self⟩
  simp only [references, List.mem_append, hm, true_or, or_true]

/-- So is what an instance refers to. -/
theorem mem_references_of_instance {id : InstanceId} {i} (h : w.instance? id = some i) {x : Ref}
    (hx : x ∈ i.refs) : x ∈ w.references := by
  have hm : x ∈ w.instances.values.flatMap Instance.refs :=
    List.mem_flatMap.2 ⟨i, Store.mem_values.2 ⟨id.index, h⟩, hx⟩
  simp only [references, List.mem_append, hm, true_or, or_true]

/-- So is the prototype of an object. -/
theorem mem_references_of_prototype {id proto : ObjectId} {o} (h : w.object? id = some o)
    (hp : o.prototype = some proto) : .object proto ∈ w.references := by
  refine mem_references_of_object h (List.mem_append_right _ (List.mem_append_left _ ?_))
  rw [hp]
  exact List.mem_append_right _ (List.mem_singleton.2 rfl)

/-- A loop that does not take a wake refers to what it referred to before, and so does one that takes a
wake which refers to nothing. -/
theorem mem_references_post {cx : ContextId} {wake : Wake} (h : wake.refs = []) (w : World) :
    r ∈ (w.post cx wake).1.references ↔ r ∈ w.references := by
  have hloops {g : Loop → Loop} (hg : ∀ l, (g l).queue.flatMap Wake.refs = l.queue.flatMap Wake.refs) :
      r ∈ (w.loops.modify cx.index g).values.flatMap (fun l => l.queue.flatMap Wake.refs) ↔
        r ∈ w.loops.values.flatMap fun l => l.queue.flatMap Wake.refs := by
    cases hl : w.loops.get? cx.index with
    | none => rw [Store.modify_of_get?_none _ hl]
    | some l =>
      have hsame : r ∈ l.queue.flatMap Wake.refs ↔
          r ∈ (g l).queue.flatMap Wake.refs ∨ r ∈ ([] : List Ref) := by
        rw [hg, or_iff_left List.not_mem_nil]
      rw [Store.mem_flatMap_modify hl hsame, or_iff_left List.not_mem_nil]
  rw [post]
  split
  · simp only [references, List.mem_append]
    rw [hloops fun l => by rw [List.flatMap_append, List.flatMap_singleton, h, List.append_nil]]
  · simp only [references, unregister, List.mem_append]
    rw [hloops (g := fun l => { l with live := l.live - 1 }) fun _ => rfl]

/-- An installation refers to the callbacks that it does not forget, and lets go of the others. -/
theorem mem_references_prune (w : World) (id : InstallationId) :
    r ∈ w.references ↔ r ∈ (w.prune id).1.references ∨ .letGo r ∈ (w.prune id).2 := by
  rw [prune]
  split
  · simp
  · next i h =>
    have hforget : r ∈ i.refs ↔
        r ∈ { i with subscriptions := i.subscriptions.filter fun e => w.isSubscribed ⟨id, e.1⟩ }.refs ∨
          r ∈ (i.subscriptions.filter fun e => !w.isSubscribed ⟨id, e.1⟩).flatMap (·.2.refs) := by
      simp only [Installation.refs, List.mem_append, or_assoc]
      refine or_congr_right (or_congr_right ?_)
      simp only [List.mem_flatMap, List.mem_filter]
      constructor
      · rintro ⟨e, he, hr⟩
        by_cases hs : w.isSubscribed ⟨id, e.1⟩
        · exact .inl ⟨e, ⟨he, hs⟩, hr⟩
        · exact .inr ⟨e, ⟨he, by simpa using hs⟩, hr⟩
      · rintro (⟨e, ⟨he, -⟩, hr⟩ | ⟨e, ⟨he, -⟩, hr⟩)
        · exact ⟨e, he, hr⟩
        · exact ⟨e, he, hr⟩
    have hmodify := Store.mem_flatMap_modify (f := Installation.refs) (g := fun i =>
      { i with subscriptions := i.subscriptions.filter fun e => w.isSubscribed ⟨id, e.1⟩ }) h hforget
    rw [mem_letGo]
    simp only [references, forget, List.mem_append, hmodify]
    refine iff_of_eq ?_
    ac_rfl

/-- **What a destroyed thing referred to** is still referred to, or is let go of. -/
theorem mem_references_destroy (w : World) (x r : Ref) :
    r ∈ w.references ↔ r ∈ (w.destroy x).1.references ∨ .letGo r ∈ (w.destroy x).2 := by
  cases x with
  | object id =>
    rw [destroy]
    split
    · simp
    · next o h =>
      have hfarewell : Farewell.letGo r ∈ (refsOf Attachment.refs o.attachment).map Farewell.letGo ++
          o.finalizers.map (fun label => .report (.record [("finalized", .text label)])) ++
          o.contents.map .letGo ↔ r ∈ o.refs := by
        simp [Object.refs]
      rw [hfarewell]
      simp only [references, List.mem_append, Store.mem_flatMap_erase h]
      refine iff_of_eq ?_
      ac_rfl
  | handle id =>
    rw [destroy]
    split
    · simp
    · next h =>
      rw [mem_letGo]
      simp only [references, List.mem_append, Store.mem_flatMap_erase h]
      refine iff_of_eq ?_
      ac_rfl
  | inst id =>
    rw [destroy]
    split
    · simp
    · next h =>
      rw [mem_letGo]
      simp only [references, List.mem_append, Store.mem_flatMap_erase h]
      refine iff_of_eq ?_
      ac_rfl
  | deferred id =>
    rw [destroy]
    split
    · simp
    · next d h =>
      have herase : r ∈ w.references ↔
          r ∈ { w with deferreds := w.deferreds.erase id.index }.references ∨ r ∈ d.value.refs := by
        simp only [references, List.mem_append, Store.mem_flatMap_erase h]
        refine iff_of_eq ?_
        ac_rfl
      split
      · next k _ =>
        have hdropped : (Wake.settle k.slot .rejected Deferred.droppedReason).refs = [] := rfl
        have hposted : Farewell.letGo r ∉ ((w.expire id).post k.context
            (.settle k.slot .rejected Deferred.droppedReason)).2 := by
          rw [post]
          split
          · exact List.not_mem_nil
          · exact List.not_mem_nil
        rw [mem_references_post hdropped, List.mem_append, or_iff_right hposted, mem_letGo]
        exact herase
      · rw [mem_letGo]
        exact herase
  | source id =>
    rw [destroy]
    split
    · simp only [List.not_mem_nil, or_false]
      rfl
    · simp
  | channels id =>
    rw [destroy]
    split
    · simp
    · next c h =>
      have hdisconnect : r ∈ w.references ↔ r ∈ (w.disconnect id c).references ∨ r ∈ c.refs := by
        simp only [references, disconnect, List.mem_append, Store.mem_flatMap_erase h]
        refine iff_of_eq ?_
        ac_rfl
      rw [hdisconnect, mem_references_prune, List.mem_append, mem_letGo, or_assoc]
  | installation id =>
    rw [destroy]
    split
    · simp
    · next h =>
      rw [mem_letGo]
      simp only [references, List.mem_append, Store.mem_flatMap_erase h]
      refine iff_of_eq ?_
      ac_rfl
  | storage id =>
    rw [destroy]
    split
    · simp
    · next label h =>
      have hreport : Farewell.letGo r ∉ label.toList.map fun label =>
          Farewell.report (.record [("released", .text label)]) := by
        simp
      rw [or_iff_left hreport]
      rfl

/-- **Who is destroyed refers to nothing any more**, and nobody refers to more than before. -/
theorem references_destroy_subset (w : World) (x : Ref) : (w.destroy x).1.references ⊆ w.references :=
  fun r hr => (w.mem_references_destroy x r).2 (.inl hr)

/-! ## All that follows -/

/-- A thing stays that waits to be let go of again or that has an owner. -/
theorem farewell_letGo (w : World) (rest : List Farewell) (r : Ref) :
    (.letGo r ∈ rest ∨ r ∈ w.references) ∧ w.farewell rest (.letGo r) = (w, []) ∨
      .letGo r ∉ rest ∧ r ∉ w.references ∧ w.farewell rest (.letGo r) = w.destroy r := by
  rw [farewell]
  split
  · next h =>
    refine .inl ⟨(Bool.or_eq_true_iff.1 h).imp (fun h => ?_) List.contains_iff_mem.1, rfl⟩
    obtain ⟨f, hf, hr⟩ := List.any_eq_true.1 h
    cases f with
    | letGo r' => exact of_decide_eq_true hr ▸ hf
    | report entry => cases hr
  · next h =>
    rw [Bool.or_eq_true, not_or, List.any_eq_true] at h
    exact .inr ⟨fun hm => h.1 ⟨_, hm, decide_eq_true rfl⟩, fun hr => h.2 (List.contains_iff_mem.2 hr), rfl⟩

/-- Does things in their order, each with everything that follows from it before the next, while `rest`
still waits. -/
def releaseBefore (w : World) (rest : List Farewell) : List Farewell → World
  | [] => w
  | f :: fs =>
    (w.farewell (fs ++ rest) f).1.releaseBefore rest ((w.farewell (fs ++ rest) f).2 ++ fs)
termination_by fs => (w.size, fs.length)
decreasing_by
  rcases farewell_lt_or_done w (fs ++ rest) f with h | ⟨hs, hf⟩
  · exact Prod.Lex.left _ _ h
  · rw [hs, hf]
    exact Prod.Lex.right _ (by simp)

/-- Farewells are said one after the other. -/
theorem release_append (w : World) (fs rest : List Farewell) :
    w.release (fs ++ rest) = (w.releaseBefore rest fs).release rest := by
  induction w, fs using releaseBefore.induct rest with
  | case1 w => rw [List.nil_append, releaseBefore]
  | case2 w f fs ih =>
    rw [List.cons_append, release, releaseBefore, ← ih, List.append_assoc]

/-- A release is one without anything after it. -/
theorem release_eq (w : World) (fs : List Farewell) : w.release fs = w.releaseBefore [] fs := by
  have h := release_append w fs []
  rwa [List.append_nil, release] at h

/-- Whatever holds for every report, and for destroying what nothing refers to, holds for a release. -/
theorem releaseBefore_induction {R : World → World → Prop} [IsPreorder World R]
    (report : ∀ (w : World) (entry : Document), R w { w with log := entry :: w.log })
    (destroy : ∀ (w : World) (r : Ref), r ∉ w.references → R w (w.destroy r).1)
    (w : World) (rest fs : List Farewell) : R w (w.releaseBefore rest fs) := by
  induction w, fs using releaseBefore.induct rest with
  | case1 w =>
    rw [releaseBefore]
    exact refl_of R w
  | case2 w f fs ih =>
    rw [releaseBefore]
    refine trans_of R ?_ ih
    cases f with
    | letGo r =>
      obtain ⟨-, h⟩ | ⟨-, hr, h⟩ := w.farewell_letGo (fs ++ rest) r
      · rw [h]
        exact refl_of R w
      · rw [h]
        exact destroy w r hr
    | report entry => exact report w entry

/-- **A release is made of reports and destructions**: what both keep, it keeps. -/
theorem release_induction {R : World → World → Prop} [IsPreorder World R]
    (report : ∀ (w : World) (entry : Document), R w { w with log := entry :: w.log })
    (destroy : ∀ (w : World) (r : Ref), r ∉ w.references → R w (w.destroy r).1)
    (w : World) (fs : List Farewell) : R w (w.release fs) := by
  rw [release_eq]
  exact releaseBefore_induction report destroy w [] fs

/-- Of all things, those that are referred to stay. -/
structure SparesOwned (w w' : World) : Prop where
  references : w'.references ⊆ w.references
  contains : ∀ r ∈ w'.references, w.contains r → w'.contains r
  mono : ∀ r, w'.contains r → w.contains r

instance : IsPreorder World SparesOwned where
  refl _ := ⟨List.Subset.refl _, fun _ _ h => h, fun _ h => h⟩
  trans _ _ _ h h' := ⟨fun _ hr => h.references (h'.references hr),
    fun r hr hc => h'.contains r hr (h.contains r (h'.references hr) hc),
    fun r hc => h.mono r (h'.mono r hc)⟩

/-- A release spares what has an owner, also when more is to be released afterwards. -/
theorem sparesOwned_releaseBefore (w : World) (rest fs : List Farewell) :
    SparesOwned w (w.releaseBefore rest fs) := by
  refine releaseBefore_induction (fun w entry => ?_) (fun w x hx => ?_) w rest fs
  · exact ⟨List.Subset.refl _, fun _ _ h => h, fun _ h => h⟩
  · refine ⟨w.references_destroy_subset x, fun r hr hc => ?_, fun r hc => ?_⟩
    · have hne : r ≠ x := fun h => hx (h ▸ w.references_destroy_subset x hr)
      rw [contains_destroy, hc, decide_eq_true hne]
      rfl
    · rw [contains_destroy, Bool.and_eq_true] at hc
      exact hc.1

/-- **Nothing is left behind**: what has no owner after things were let go of, and does not wait either,
had none before and was not among them. -/
theorem unowned_of_releaseBefore {rest fs : List Farewell} (hc : (w.releaseBefore rest fs).contains r)
    (hr : r ∉ (w.releaseBefore rest fs).references) (hrest : .letGo r ∉ rest) :
    r ∉ w.references ∧ .letGo r ∉ fs := by
  induction w, fs using releaseBefore.induct rest with
  | case1 w =>
    rw [releaseBefore] at hr
    exact ⟨hr, List.not_mem_nil⟩
  | case2 w f fs ih =>
    rw [releaseBefore] at hc hr
    obtain ⟨hr', hf⟩ := ih hc hr
    rw [List.mem_append, not_or] at hf
    have hc' := (sparesOwned_releaseBefore ..).mono r hc
    cases f with
    | report entry => exact ⟨hr', by simpa using hf.2⟩
    | letGo x =>
      obtain ⟨h, hx⟩ | ⟨-, -, hx⟩ := w.farewell_letGo (fs ++ rest) x
      · rw [hx] at hr' hf
        refine ⟨hr', fun hm => ?_⟩
        obtain hx | hm := List.mem_cons.1 hm
        · cases hx
          obtain h | h := h
          · exact (List.mem_append.1 h).elim hf.2 hrest
          · exact hr' h
        · exact hf.2 hm
      · rw [hx] at hr' hf hc'
        refine ⟨fun hr => ?_, fun hm => ?_⟩
        · exact ((w.mem_references_destroy x r).1 hr).elim hr' hf.1
        · obtain hx | hm := List.mem_cons.1 hm
          · cases hx
            rw [contains_destroy] at hc'
            simp at hc'
          · exact hf.2 hm

/-! ## A release -/

/-- What waits to be let go of and has an owner in the end, or waits on, stays; the rest goes. -/
theorem contains_releaseBefore_iff {rest fs : List Farewell} (h : .letGo r ∈ fs)
    (hc : w.contains r) (hrest : .letGo r ∉ rest) :
    (w.releaseBefore rest fs).contains r ↔ r ∈ (w.releaseBefore rest fs).references := by
  constructor
  · exact fun hc' => Decidable.byContradiction fun hr =>
      (unowned_of_releaseBefore hc' hr hrest).2 h
  · intro hr
    exact (sparesOwned_releaseBefore w rest fs).contains r hr hc

/-- **Of the things that are let go of, those stay that have an owner left.** -/
theorem contains_release_iff {fs : List Farewell} (h : .letGo r ∈ fs) (hc : w.contains r) :
    (w.release fs).contains r ↔ r ∈ (w.release fs).references := by
  rw [release_eq]
  exact contains_releaseBefore_iff h hc List.not_mem_nil

/-- **A release spares what has an owner**. -/
theorem sparesOwned_release (w : World) (fs : List Farewell) : SparesOwned w (w.release fs) := by
  rw [release_eq]
  exact sparesOwned_releaseBefore w [] fs

/-- What is unowned is there, and nothing refers to it. -/
theorem mem_unowned_iff : r ∈ w.unowned ↔ w.contains r ∧ r ∉ w.references := by
  rw [unowned, List.mem_filter, Bool.not_eq_true', ← Bool.not_eq_true, List.contains_iff_mem]
  refine and_congr_left fun _ => ?_
  rcases r with ⟨⟨_⟩⟩ | ⟨⟨_⟩⟩ | ⟨⟨_⟩⟩ | ⟨⟨_⟩⟩ | ⟨⟨_⟩⟩ | ⟨⟨_⟩⟩ | ⟨⟨_⟩⟩ | _ <;>
    simp [contains, Store.mem_keys]

/-- **A sweep leaves nothing without an owner.** -/
theorem unowned_sweep (w : World) : w.sweep.unowned = [] := by
  refine List.eq_nil_iff_forall_not_mem.2 fun r hr => ?_
  rw [mem_unowned_iff, sweep, letGo, release_eq] at hr
  obtain ⟨hr', hf⟩ := unowned_of_releaseBefore hr.1 hr.2 List.not_mem_nil
  refine hf (List.mem_map_of_mem (mem_unowned_iff.2 ⟨?_, hr'⟩))
  exact (sparesOwned_releaseBefore ..).mono r hr.1

/-! ## The end of an object -/

/-- What a finalizer reports. -/
def finalized (label : String) : Document :=
  .record [("finalized", .text label)]

/-- The world in which finalizers have reported, one after the other. -/
def reporting (w : World) (labels : List String) : World :=
  { w with log := (labels.map finalized).reverse ++ w.log }

/-- Labels are reported before anything else goes. -/
theorem release_reports (w : World) (labels : List String) (rest : List Farewell) :
    w.release (labels.map (fun label => .report (finalized label)) ++ rest) =
      (w.reporting labels).release rest := by
  induction labels generalizing w with
  | nil => rfl
  | cons label labels ih =>
    have hlog : { w with log := finalized label :: w.log }.reporting labels =
        w.reporting (label :: labels) := by
      rw [reporting, reporting, List.map_cons, List.reverse_cons, List.append_assoc]
      rfl
    rw [List.map_cons, List.cons_append, release, ← hlog]
    exact ih _

/-- Handles are no part of foreign values. -/
theorem handle_notMem_foreign (h : HandleId) (v : ForeignValue) : .handle h ∉ v.refs := by
  cases v <;> simp [ForeignValue.refs]

/-- No object refers to a handle but as its native data. -/
theorem handle_notMem_contents (o : Object) (h : HandleId) : .handle h ∉ o.contents := by
  rw [Object.contents, List.mem_append, List.mem_append, not_or, not_or]
  refine ⟨⟨?_, ?_⟩, ?_⟩
  · cases o.kind with
    | array items => simp [ObjectKind.refs, handle_notMem_foreign]
    | arrayBuffer b => simp [ObjectKind.refs]
    | promise state => cases state <;> simp [ObjectKind.refs, PromiseState.refs, handle_notMem_foreign]
    | _ => simp [ObjectKind.refs]
  · cases o.prototype <;> simp [refsOf]
  · rw [List.mem_flatMap]
    rintro ⟨⟨name, p⟩, -, hp⟩
    cases p with
    | data v _ _ => exact handle_notMem_foreign h v hp
    | accessor _ _ _ _ => exact List.not_mem_nil hp

/-- The world after an object and then its native data have gone, as far as they go; its finalizers, its
contents and `rest` still wait. -/
def unwrapping (w : World) (id : ObjectId) (o : Object) (rest : List Farewell) : World :=
  { w with objects := w.objects.erase id.index }.releaseBefore
    (o.finalizers.map (fun label => Farewell.report (finalized label)) ++
      (o.contents.map Farewell.letGo ++ rest))
    ((refsOf Attachment.refs o.attachment).map Farewell.letGo)

/-- **An object that goes** lets go of its native data, then its finalizers report in the order in which
they were added, and then it lets go of its contents. -/
theorem release_object {id : ObjectId} {o : Object} {rest : List Farewell} (ho : w.object? id = some o)
    (hr : .object id ∉ w.references) (hrest : .letGo (.object id) ∉ rest) :
    w.release (.letGo (.object id) :: rest) =
      ((w.unwrapping id o rest).reporting o.finalizers).release (o.contents.map .letGo ++ rest) := by
  have hfarewell : w.farewell rest (.letGo (.object id)) = w.destroy (.object id) := by
    obtain ⟨h, -⟩ | ⟨-, -, h⟩ := w.farewell_letGo rest (.object id)
    · exact (h.elim hrest hr).elim
    · exact h
  rw [release, hfarewell, destroy, ho]
  dsimp only
  rw [List.append_assoc, List.append_assoc, release_append, ← release_reports]
  rfl

/-- When the finalizers of an object report, its handle is gone, or something else has it. -/
theorem handle_of_unwrapping {id : ObjectId} {o : Object} {h : HandleId} {rest : List Farewell}
    (ha : o.attachment = some (.handle h)) (hrest : .letGo (.handle h) ∉ rest)
    (hc : (w.unwrapping id o rest).contains (.handle h)) :
    .handle h ∈ (w.unwrapping id o rest).references := by
  have hlet : Farewell.letGo (.handle h) ∈ (refsOf Attachment.refs o.attachment).map Farewell.letGo := by
    rw [ha, mem_letGo]
    exact List.mem_singleton_self _
  refine Decidable.byContradiction fun hr => (unowned_of_releaseBefore hc hr fun hm => ?_).2 hlet
  obtain hm | hm := List.mem_append.1 hm
  · simp at hm
  · obtain hm | hm := List.mem_append.1 hm
    · exact handle_notMem_contents o h (mem_letGo.1 hm)
    · exact hrest hm

end World

end Isthmus
