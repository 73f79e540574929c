import Isthmus.Proofs.Lifetime.Calls
import Isthmus.Proofs.Lifetime.Storages
import Isthmus.Proofs.Members.Unwritten

/-!
# Proofs/Lifetime/Lending — handing buffers over

A buffer goes to a new holder without a copy.  Whatever becomes foreign, and whatever getters run meanwhile,
no storage is made (`World.Uncopied`).  What consists of buffers and plain data runs no code on its way, and
exactly its own buffers get new holders (`World.Takes`).  On the way back nothing changes at all, and a native
value holds no buffers but those that array buffers hold (`World.buffers_fromForeign`).
-/

namespace Isthmus

open World

/-! ## Handing buffers over -/

namespace World

/-- Buffers are handed over to new holders and lose others, and no storage goes yet. -/
structure Takes (lent : List Buffer) (w w' : World) : Prop where
  buffers : w'.buffers ⊆ w.buffers ++ lent
  storages : w'.storages = w.storages
  released : w'.released = w.released
  held : storagesOf w'.held.flatten = storagesOf w.held.flatten

instance (lent : List Buffer) : IsPreorder World (Takes lent) where
  refl w := ⟨List.subset_append_left .., rfl, rfl, rfl⟩
  trans _ _ _ h h' := by
    refine ⟨fun b hb => ?_, h'.storages.trans h.storages, h'.released.trans h.released, h'.held.trans h.held⟩
    obtain hb | hb := List.mem_append.1 (h'.buffers hb)
    · exact h.buffers hb
    · exact List.mem_append_right _ hb

namespace Takes

variable {lent : List Buffer} {w : World}

/-- Names come to stand for other things. -/
theorem names {r : Roots} (h : r.sharedBuffers ⊆ w.roots.sharedBuffers ++ lent) :
    Takes lent w { w with roots := r } := by
  refine ⟨fun b hb => ?_, rfl, rfl, rfl⟩
  have hroots := fun hb => List.mem_append.1 (@h b hb)
  simp only [World.buffers, List.mem_append] at hb ⊢
  tauto

theorem addObject {o : Object} (h : o.buffers ⊆ lent) :
    Takes lent w { w with objects := w.objects.insert o } := by
  refine ⟨fun b hb => ?_, rfl, rfl, rfl⟩
  have hobject := @h b
  simp only [World.buffers, Store.values_insert, List.flatMap_append, List.flatMap_singleton,
    List.mem_append] at hb ⊢
  tauto

theorem addInstance {i : Instance} (h : i.buffers ⊆ lent) :
    Takes lent w { w with instances := w.instances.insert i } := by
  refine ⟨fun b hb => ?_, rfl, rfl, rfl⟩
  have hinstance := @h b
  simp only [World.buffers, Store.values_insert, List.flatMap_append, List.flatMap_singleton,
    List.mem_append] at hb ⊢
  tauto

theorem setInstance {id : InstanceId} {i i' : Instance} (hi : w.instance? id = some i)
    (h : i'.buffers ⊆ i.buffers ++ lent) :
    Takes lent w { w with instances := w.instances.modify id.index fun _ => i' } := by
  have hmodify : (w.instances.modify id.index fun _ => i').values.flatMap Instance.buffers ⊆
      w.instances.values.flatMap Instance.buffers ++ lent := by
    refine Store.flatMap_modify_subset _ _ fun a ha => ?_
    cases ha.symm.trans hi
    exact h
  refine ⟨fun b hb => ?_, rfl, rfl, rfl⟩
  have hmodify := fun hb => List.mem_append.1 (@hmodify b hb)
  simp only [World.buffers, List.mem_append] at hb ⊢
  tauto

/-- A property does not make an object show another buffer. -/
theorem putting (id : ObjectId) (name : String) (p : Property) : Takes lent w (w.putting id name p) := by
  have hmodify : (w.objects.modify id.index (·.put name p)).values.flatMap Object.buffers ⊆
      w.objects.values.flatMap Object.buffers ++ lent :=
    Store.flatMap_modify_subset _ _ fun o _ => List.subset_append_left ..
  refine ⟨fun b hb => ?_, rfl, rfl, rfl⟩
  have hmodify := fun hb => List.mem_append.1 (@hmodify b hb)
  simp only [World.buffers, World.putting, List.mem_append] at hb ⊢
  tauto

theorem holding {refs : List Ref} (h : storagesOf refs = []) : Takes lent w (w.holding refs) := by
  refine ⟨List.subset_append_left .., rfl, rfl, ?_⟩
  rw [World.holding]
  cases w.held with
  | nil => simp [h]
  | cons frame outer => simp [h]

theorem adding {o : Object} (h : o.buffers ⊆ lent) : Takes lent w (w.adding o) :=
  trans_of _ (addObject h) (holding rfl)

end Takes

end World

/-! ## No copies -/

/-- No storage is made, and those that stay keep their labels. -/
structure World.Uncopied (w w' : World) : Prop where
  next : w'.storages.next = w.storages.next
  storages : ∀ s label, w'.storages.get? s = some label → w.storages.get? s = some label

namespace World.Uncopied

variable {w w' : World} {cx : ContextId}

instance : IsPreorder World Uncopied where
  refl _ := ⟨rfl, fun _ _ h => h⟩
  trans _ _ _ h h' := ⟨h'.next.trans h.next, fun s label hs => h.storages s label (h'.storages s label hs)⟩

theorem of_eq (h : w'.storages = w.storages) : w.Uncopied w' where
  next := congrArg Store.next h
  storages s label hs := by rwa [h] at hs

instance : Releases Uncopied where
  release w fs :=
    have h := w.loses_release fs
    ⟨h.next, h.storages⟩

instance : ForeignWork Uncopied :=
  .of_stock fun _ _ _ hs => of_eq hs

theorem writeMember {id index v} : Conserves Uncopied (Engine.writeMember id index v) := by
  have hupdate {before after : Instance} {b : Bool} :
      Conserves Uncopied (do Engine.updateInstance id before after; return b) :=
    .bind (.bind (.modify fun _ => of_eq rfl) fun _ => .letGo) fun _ => .pure
  refine .bind .get fun w => ?_
  split
  · split
    · exact hupdate
    · exact .pure
  · exact .ite (fun _ => hupdate) fun _ => .pure
  · exact .pure

/-- **No getter and no setter makes a storage.** -/
theorem answers (n : Nat) : Isthmus.Answers Uncopied (Session.runner n) :=
  answersWith (fun _ _ _ => writeMember) n

/-- **Whatever becomes foreign, no storage is made.** -/
theorem convertToForeign (n : Nat) {v : NativeValue} :
    Conserves Uncopied (Session.convertToForeign (Session.runner n) cx v) := by
  refine .bind .registry fun registry => .bind (.toForeign (answers n)) fun r => ?_
  split
  · exact .pure
  · exact .fail

end World.Uncopied

/-! ## Buffers and plain data -/

/-- The value consists of buffers and plain data: no instance and no deferred is part of it. -/
def NativeValue.IsData (v : NativeValue) : Prop :=
  ∀ r ∈ v.refs, ∃ s, r = .storage s


namespace Conserves

variable {lent : List Buffer} {run : Runner} {cx : ContextId} {registry : Registry} {v : NativeValue}

theorem takes_allocate {o : Object} (h : o.buffers ⊆ lent) : Conserves (Takes lent) (Engine.allocate o) :=
  fun _ => .adding h

theorem takes_raiseTypeError {α : Type} {text : String} :
    Conserves (Takes lent) (Engine.raiseTypeError cx text : Engine α) :=
  .bind (takes_allocate (List.nil_subset _)) fun _ => .raise

/-- A conversion to plain data hands over the buffer that it is for. -/
theorem takes_encodePlain {limit e} (h : v.buffers ⊆ lent) :
    Conserves (Takes lent) (Engine.encodePlain cx limit e v) := by
  unfold Engine.encodePlain
  split
  case h_5 b => exact .ite (fun _ => .bind (takes_allocate h) fun _ => .pure) fun _ => .pure
  case h_8 => exact takes_raiseTypeError
  all_goals exact .pure

/-- Data that holds no other values. -/
theorem takes_encode {limit e} (h : v.buffers ⊆ lent) (hd : v.asDeferred? = none)
    (ho : v.unwrap.asObject? = none) : Conserves (Takes lent) (Engine.encode run cx limit e v) := by
  unfold Engine.encode
  split
  · rw [hd]
    exact takes_raiseTypeError
  · refine .bind .get fun w => ?_
    rw [ho]
    exact takes_raiseTypeError
  · exact takes_encodePlain h

mutual

/-- **Converting data** hands its buffers over, and does nothing else to buffers. -/
theorem takes_toForeign : (v : NativeValue) → v.IsData → v.buffers ⊆ lent →
    Conserves (Takes lent) (Engine.toForeign run cx registry v)
  | .variant content, hdata, h => by
    rw [Engine.toForeign]
    exact takes_toForeign content hdata h
  | .list items, hdata, h => by
    rw [Engine.toForeign]
    refine .bind (takes_allToForeign items hdata h) fun r => ?_
    split
    · refine .bind (.bind .get fun w => .ite (fun _ => takes_allocate ?_) fun _ => .abort) fun _ => .pure
      exact List.nil_subset _
    · exact .pure
  | .object t i, hdata, _ => by
    obtain ⟨s, hs⟩ := hdata (.inst i) (List.mem_singleton.2 rfl)
    cases hs
  | .deferred d, hdata, _ => by
    obtain ⟨s, hs⟩ := hdata (.deferred d) (List.mem_singleton.2 rfl)
    cases hs
  | .void, _, h | .bool _, _, h | .int _, _, h | .double _, _, h | .string _, _, h | .buffer _, _, h => by
    rw [Engine.toForeign]
    · split
      · exact .bind (takes_encode h rfl rfl) fun _ => .pure
      · exact .pure
    all_goals nofun

theorem takes_allToForeign : (vs : List NativeValue) →
    (∀ r ∈ NativeValue.refsIn vs, ∃ s, r = .storage s) → NativeValue.buffersIn vs ⊆ lent →
    Conserves (Takes lent) (Engine.allToForeign run cx registry vs)
  | [], _, _ => by
    rw [Engine.allToForeign]
    exact .pure
  | v :: vs, hdata, h => by
    have hv : v.IsData := fun r hr => hdata r (List.mem_append_left _ hr)
    have hvs : ∀ r ∈ NativeValue.refsIn vs, ∃ s, r = .storage s :=
      fun r hr => hdata r (List.mem_append_right _ hr)
    obtain ⟨hfirst, hrest⟩ := List.append_subset.1 h
    rw [Engine.allToForeign]
    refine .bind (takes_toForeign v hv hfirst) fun r => ?_
    split
    · exact .pure
    · refine .bind (takes_allToForeign vs hvs hrest) fun r => ?_
      split <;> exact .pure

end

theorem takes_convertToForeign (hdata : v.IsData) (h : v.buffers ⊆ lent) :
    Conserves (Takes lent) (Session.convertToForeign run cx v) := by
  refine .bind .registry fun r => .bind (takes_toForeign v hdata h) fun x => ?_
  split
  · exact .pure
  · exact .fail

end Conserves

theorem NativeValue.buffers_toVariant (v : NativeValue) : v.toVariant.buffers = v.buffers := by
  rw [NativeValue.toVariant]
  split <;> rfl

theorem NativeValue.buffersIn_subset {vs : List NativeValue} {bs : List Buffer}
    (h : ∀ v ∈ vs, v.buffers ⊆ bs) : NativeValue.buffersIn vs ⊆ bs := by
  induction vs with
  | nil => exact List.nil_subset _
  | cons v vs ih =>
    exact List.append_subset.2 ⟨h v List.mem_cons_self, ih fun u hu => h u (List.mem_cons_of_mem _ hu)⟩

namespace World

variable {w : World} {cx : ContextId} {v : ForeignValue}

/-- An object holds the buffer that it shows. -/
theorem buffers_object_subset {id : ObjectId} {o : Object} (h : w.object? id = some o) :
    o.buffers ⊆ w.buffers := by
  intro b hb
  have hmem : b ∈ w.objects.values.flatMap Object.buffers :=
    List.mem_flatMap.2 ⟨o, Store.mem_values.2 ⟨id.index, h⟩, hb⟩
  simp only [buffers, List.mem_append]
  tauto

/-- An instance holds its buffers. -/
theorem buffers_instance_subset {id : InstanceId} {i : Instance} (h : w.instance? id = some i) :
    i.buffers ⊆ w.buffers := by
  intro b hb
  have hmem : b ∈ w.instances.values.flatMap Instance.buffers :=
    List.mem_flatMap.2 ⟨i, Store.mem_values.2 ⟨id.index, h⟩, hb⟩
  simp only [buffers, List.mem_append]
  tauto

theorem buffers_ofNumber (n : Float) : (World.ofNumber n).buffers = [] := by
  rw [World.ofNumber]
  split <;> rfl

/-- The native counterpart of a value holds no buffers but those of array buffers. -/
theorem buffers_infer : Results (·.buffers ⊆ w.buffers) (w.infer cx v) := by
  rw [World.infer]
  generalize w.objects.size + 1 = depth
  have hnone {u : NativeValue} (h : u.buffers = []) : Results (·.buffers ⊆ w.buffers)
      (.ok u : Except Refusal NativeValue) :=
    .ok (by rw [h]; exact List.nil_subset _)
  induction depth generalizing v with
  | zero =>
    unfold World.inferWithin
    split
    case h_4 => exact hnone (buffers_ofNumber _)
    case h_6 => exact .error
    case h_7 hd => cases hd
    all_goals exact hnone rfl
  | succ depth ih =>
    unfold World.inferWithin
    split
    case h_4 => exact hnone (buffers_ofNumber _)
    case h_6 hd => cases hd
    case h_7 depth' id hd =>
      cases hd
      split
      · exact .error
      · next o ho =>
        split
        · next b hk =>
          refine .ok (List.Subset.trans ?_ (buffers_object_subset ho))
          rw [Object.buffers, Object.buffer?, hk]
          exact List.Subset.refl _
        · next items hk =>
          refine .bind fun natives hn => .ok (NativeValue.buffersIn_subset ?_)
          refine Results.mapM (fun item _ => .bind fun u hu => .ok ?_) natives hn
          rw [NativeValue.buffers_toVariant]
          exact ih u hu
        · exact .bind fun y _ => hnone rfl
    all_goals exact hnone rfl

/-- An array buffer holds its buffer. -/
theorem mem_buffers_of_bufferOf {b : Buffer} (h : w.bufferOf v = some b) : b ∈ w.buffers := by
  obtain ⟨o, ho, hb⟩ := Option.bind_eq_some_iff.1 h
  obtain ⟨id, -, ho⟩ := Option.bind_eq_some_iff.1 ho
  refine buffers_object_subset ho ?_
  rw [Object.buffers, hb]
  exact List.mem_singleton.2 rfl

theorem buffers_decode {d : Decoder} : Results (·.buffers ⊆ w.buffers) (w.decode cx d v) := by
  have hgiven {α : Type} {f : α → NativeValue} {a : Option α} (hf : ∀ u ∈ a, (f u).buffers ⊆ w.buffers) :
      Results (·.buffers ⊆ w.buffers) (World.given (a.map f)) := by
    cases a with
    | none => exact .error
    | some a => exact .ok (hf a rfl)
  cases d with
  | buffer =>
    exact hgiven fun b hb => List.cons_subset.2 ⟨mem_buffers_of_bufferOf hb, List.nil_subset _⟩
  | «instance» cls => exact .bind fun y _ => .ok (List.nil_subset _)
  | nil =>
    rw [World.decode]
    split
    · exact .ok (List.nil_subset _)
    · exact .error
  | _ => exact hgiven fun _ _ => List.nil_subset _

/-- **What a foreign value converts to** holds no buffers but those of array buffers. -/
theorem buffers_fromForeign {registry : Registry} {t : TypeId} :
    Results (Results (·.buffers ⊆ w.buffers)) (w.fromForeign cx registry v t) := by
  have hconverted {r : Except Refusal NativeValue} (h : Results (·.buffers ⊆ w.buffers) r) :
      Results (Results (·.buffers ⊆ w.buffers)) (World.converted t r) := by
    unfold World.converted
    split
    · exact .ok (.ok (h _ rfl))
    · exact .ok .error
    · exact .error
  have hitem (v : ForeignValue) :
      Results (·.buffers ⊆ w.buffers) (do return (← w.infer cx v).toVariant) := by
    refine .bind fun u hu => .ok ?_
    rw [NativeValue.buffers_toVariant]
    exact buffers_infer u hu
  rw [World.fromForeign]
  split
  · exact hconverted (hitem v)
  · split
    · exact hconverted (.bind fun items _ => .bind fun natives hn => .ok
        (NativeValue.buffersIn_subset (Results.mapM (fun item _ => hitem item) natives hn)))
    · split
      · exact .ok .error
      · refine hconverted (.bind fun b _ => ?_)
        split
        · exact buffers_decode
        · exact .error

end World

namespace Engine.Finds

variable {w : World} {cx : ContextId}

/-- **Converting back** changes nothing, and gives buffers that array buffers hold. -/
theorem convertFromForeign {v : ForeignValue} {t : TypeId} :
    Finds (·.buffers ⊆ w.buffers) (Session.convertFromForeign cx v t) w := by
  refine .bind .registry fun r _ => .bind .fromForeign fun x hx => ?_
  split
  · exact .pure (buffers_fromForeign _ hx _ rfl)
  · exact .throw

/-- Reading a property of an instance changes nothing, and gives buffers that the instance holds. -/
theorem readMember {id : InstanceId} {index : Nat} :
    Finds (fun found => ∀ v ∈ found, v.buffers ⊆ w.buffers) (Engine.readMember id index) w := by
  refine .get ?_
  split
  · next c hi =>
    refine .pure fun v hv => List.Subset.trans ?_ (buffers_instance_subset hi)
    unfold Calculator.read at hv
    split at hv <;> cases hv
    · exact List.nil_subset _
    · exact List.nil_subset _
    · rw [Instance.buffers]
      cases c.last with
      | none => exact List.nil_subset _
      | some u => simp
  · next m hi =>
    refine .pure fun v hv => List.Subset.trans ?_ (buffers_instance_subset hi)
    unfold Matrix.read at hv
    split at hv <;> cases hv
    exact List.Subset.refl _
  · refine .pure fun v hv => ?_
    split at hv <;> cases hv
    exact List.nil_subset _
  · next slots _ hi =>
    refine .pure fun v hv => List.Subset.trans ?_ (buffers_instance_subset hi)
    have hslot : some v ∈ slots := List.mem_of_getElem? (Option.join_eq_some_iff.1 hv)
    exact fun b hb => List.mem_flatMap.2 ⟨some v, hslot, by simpa using hb⟩
  · refine .pure fun v hv => ?_
    cases hv

end Engine.Finds

end Isthmus
