import Isthmus.Proofs.Lifetime.Calls

/-!
# Proofs/Lifetime/Exclusive — guarding the instances of exclusive handles

A handle that is bound exclusively has its instance to itself when it is bound, and then the instance is
reserved for it (`World.Exclusive`).  An action guards exclusive handles if it leaves these reservations as
they are or makes new ones (`World.Guards`).

* `Guards.construct_now` — constructing guards exclusive handles.
* `World.constructed` — the object that a class constructor makes carries such a handle.
-/

namespace Isthmus

open Engine Session

/-! ## Values without exclusive handles -/

/-- The value is there and leads to no exclusive handle, also by way of the items of arrays. -/
inductive World.Clear (w : World) : ForeignValue → Prop
  | plain {v} (h : v.asObject? = none) : Clear w v
  | object {id o} (ho : w.object? id = some o)
      (ha : ∀ h, o.attachment = some (.handle h) → ∃ y, w.handle? h = some y ∧ y.ownership = .shared)
      (hi : ∀ items, o.kind = .array items → ∀ v ∈ items, Clear w v) : Clear w (.object id)

/-- Bound exclusive handles and further ones have their instances to themselves. -/
def World.Exclusive (w : World) (owner : HandleId → InstanceId → Prop) : Prop :=
  w.Reserved ⟨owner, fun _ => False⟩

namespace World

variable {w w' : World} {owner : HandleId → InstanceId → Prop}

/-- Reservations do not depend on what else is known to be apart. -/
theorem Reserved.knowing {known apart : ObjectId → Prop} (h : w.Reserved ⟨owner, known⟩)
    (hlt : ∀ id, apart id → id.index < w.objects.next)
    (ha : ∀ id o, apart id → w.object? id = some o → Reserve.Clears ⟨owner, apart⟩ o) :
    w.Reserved ⟨owner, apart⟩ where
  known := h.known
  handles := h.handles
  owners := h.owners
  exclusive := h.exclusive
  instances := h.instances
  deferreds := h.deferreds
  queues := h.queues
  delivering := h.delivering
  errands := h.errands
  jobs := h.jobs
  natives := h.natives
  held := h.held
  objects := h.objects
  apart_lt := hlt
  apart := ha

theorem Reserved.exclusive_of {known : ObjectId → Prop} (h : w.Reserved ⟨owner, known⟩) :
    w.Exclusive owner :=
  h.knowing nofun nofun

theorem Clear.apart {v : ForeignValue} (h : w.Clear v) :
    (⟨owner, fun id => w.Clear (.object id)⟩ : Reserve).Apart v := by
  cases v with
  | object id => exact h
  | _ => trivial

/-- Objects without exclusive handles are apart from the instances of these. -/
theorem Exclusive.clear (h : w.Exclusive owner) : w.Reserved ⟨owner, fun id => w.Clear (.object id)⟩ := by
  refine h.knowing (fun id hid => ?_) fun id o hid ho => ?_
  · cases hid with
    | plain h => cases h
    | object ho => exact Store.lt_next_of_get? ho
  · cases hid with
    | plain h => cases h
    | object ho' ha hi =>
      cases ho'.symm.trans ho
      refine ⟨fun id' i hij hatt => ?_, fun items hk v hv => (hi items hk v hv).apart⟩
      obtain ⟨y, hy, hs⟩ := ha id' hatt
      cases hs.symm.trans (h.owners id' y i hy hij).2

/-! ## Guarding -/

/-- Handles that have their instances to themselves keep them so, and the bound exclusive ones join them. -/
def Guards (w w' : World) : Prop :=
  ∀ owner, w.Exclusive owner → ∃ owner', (∀ h i, owner h i → owner' h i) ∧ w'.Exclusive owner'

instance : IsPreorder World Guards where
  refl _ owner h := ⟨owner, fun _ _ => id, h⟩
  trans _ _ _ h h' owner hw := by
    obtain ⟨owner₁, hle, hw₁⟩ := h owner hw
    obtain ⟨owner₂, hle', hw₂⟩ := h' owner₁ hw₁
    exact ⟨owner₂, fun h i hi => hle' h i (hle h i hi), hw₂⟩

theorem Guards.of_stands (h : ∀ x : Reserve, x.Stands w w') : w.Guards w' :=
  fun owner hw => ⟨owner, fun _ _ => id, h _ hw⟩

theorem Guards.of_clear (h : ∀ owner, (Reserve.mk owner fun id => w.Clear (.object id)).Stands w w') :
    w.Guards w' :=
  fun owner hw => ⟨owner, fun _ _ => id, (h owner hw.clear).exclusive_of⟩

end World

namespace Guards

open World

variable {α β : Type} {w : World} {cx : ContextId} {m : Engine α}

theorem of_stands (h : ∀ x : Reserve, Conserves x.Stands m) : Conserves World.Guards m :=
  fun w => .of_stands fun x => h x w

/-! ## Constructing -/

theorem createDefault_lt {cls : ClassKey} {i : InstanceId} {w' : World}
    (h : (createDefault cls).run w = .ok i w') : i.index < w'.instances.next := by
  have hlast {n : Instance} {w : World} (h : (createInstanceOf n).run w = .ok i w') :
      i.index < w'.instances.next := by
    cases h
    exact Nat.lt_succ_self _
  cases cls with
  | puppet k =>
    obtain ⟨_, _, -, h⟩ := bind_ok h
    obtain ⟨_, _, -, h⟩ := bind_ok h
    obtain ⟨_, _, -, h⟩ := bind_ok h
    exact hlast h
  | matrix =>
    obtain ⟨_, _, -, h⟩ := bind_ok h
    exact hlast h
  | ticker =>
    obtain ⟨_, _, -, h⟩ := bind_ok h
    exact hlast h
  | _ => exact hlast h

/-- The handle of a fresh instance has it to itself once it is bound. -/
theorem attachFresh {cls : ClassKey} {i : InstanceId} {obj : ObjectId}
    {owner : HandleId → InstanceId → Prop} (hw : w.Exclusive owner)
    (hs : ∀ h, ¬ owner h i) (hi : i.index < w.instances.next) :
    ∃ owner', (∀ h i, owner h i → owner' h i) ∧ ((do
      let id ← createHandle cls i .exclusive
      attach cx cls obj id).after w).Exclusive owner' := by
  have hnew : { w with handles := w.handles.insert { cls, inst := i, ownership := .exclusive } }.handle?
      ⟨w.handles.next⟩ = some { cls, inst := i, ownership := .exclusive } := by
    rw [World.handle?, Store.get?_insert, if_pos rfl]
  refine Stands.attach_now (P := fun w' => ∃ owner', (∀ h i, owner h i → owner' h i) ∧
    w'.Exclusive owner') (hw.addHandle .exclusive hs) hnew (fun _ h => ⟨owner, fun _ _ => id, h⟩) ?_
  intro w' y hw' hinstances hy hyi hye
  by_cases h : ∃ o, w'.object? obj = some o ∧ w'.Bindable cx y o
  · obtain ⟨o, ho, hb⟩ := h
    have hr := Engine.run_bindHandle hy ho hb
    have hlt : y.inst.index < w'.instances.next := by
      rw [hyi, hinstances]
      exact hi
    have hbound := Stands.bindExclusive_now hw' hy hlt hye hr
    rw [Engine.after, Engine.run_bind_of_ok hr, ← Engine.after]
    exact ⟨_, fun h i => Or.inl,
      (Stands.defineAll (Stands.isNative_propertyDefinitions cls _) _ hbound).exclusive_of⟩
  · obtain ⟨text, hr⟩ := Engine.run_bindHandle_error hy fun o ho hb => h ⟨o, ho, hb⟩
    rw [Engine.after, Engine.run_bind_of_error hr]
    exact ⟨owner, fun _ _ => id, hw'⟩

/-- A class constructor gives a fresh instance to the receiver. -/
theorem constructMember {cls} {info : CallInfo} (hn : info.isConstructCall) :
    Conserves World.Guards (Engine.constructMember cx cls info) := by
  refine .bind .get fun _ => ?_
  dsimp only
  rw [hn, Bool.not_true, if_neg Bool.false_ne_true]
  split
  · next obj _ =>
    intro w owner hw
    obtain ⟨hafter, hspare⟩ := Stands.createDefault cls w hw
    rw [Engine.after_bind]
    cases hr : (createDefault cls).run w with
    | error e w₁ =>
      rw [Engine.after_of_error hr] at hafter
      exact ⟨owner, fun _ _ => id, hafter⟩
    | ok i w₁ =>
      rw [Engine.after_of_ok hr] at hafter
      dsimp only
      rw [← bind_assoc, Engine.after_bind_pure]
      exact attachFresh hafter (hspare i w₁ hr) (createDefault_lt hr)
  · exact .abort

/-- **Constructing** keeps exclusive instances exclusive. -/
theorem construct_now {n : Nat} {c : ForeignValue} {args : List ForeignValue}
    (h : ∀ code data, w.code? c = some (code, data) → (∀ cls, code ≠ .member cls .construct) →
      ∀ v ∈ args, w.Clear v) :
    w.Guards ((construct (runner n) cx c args).after w) := by
  by_cases hcode : ∃ cls data, w.code? c = some (.member cls .construct, data)
  · obtain ⟨cls, data, hcode⟩ := hcode
    refine Conserves.bind_now (of_stands fun x => Stands.callable.conserves) fun r w₁ hr => ?_
    obtain ⟨rfl, hfound⟩ := Finds.callable r w₁ hr
    obtain ⟨id, code, data⟩ := r
    cases hcode.symm.trans hfound
    refine Conserves.bind .checkOwned (fun _ => ?_) _
    refine .bind (of_stands fun x => Stands.createInstance (Stands.runner x n)) fun this => ?_
    have hrun : Conserves World.Guards ((runner n).call cx (.member cls .construct)
        { receiver := .object this, args, data, newTarget := some id }) := by
      cases n with
      | zero => exact .throw
      | succ n => exact constructMember rfl
    refine .bind hrun fun v => ?_
    split
    · exact .pure
    · exact .pure
  · refine .of_clear fun owner hw => ?_
    have hnative : ∀ r w', (callable cx c).run w = .ok r w' → r.2.1.isNative :=
      (Stands.callable w hw).2
    refine Conserves.bind_now Stands.callable.conserves (fun r w₁ hr => ?_) hw
    obtain ⟨rfl, hfound⟩ := Finds.callable r w₁ hr
    have hn := hnative r _ hr
    obtain ⟨id, code, data⟩ := r
    have hother : ∀ cls, code ≠ .member cls .construct := by
      rintro cls rfl
      exact hcode ⟨cls, data, hfound⟩
    have hargs := h code data hfound hother
    have hruns := Stands.runner ⟨owner, fun id => w₁.Clear (.object id)⟩ n
    refine Conserves.bind .checkOwned (fun _ => ?_) _
    refine .bind (Stands.createInstance hruns) fun this => .bind (fun w' => ?_) fun v => ?_
    · exact hruns.call hn (fun _ v hv => (hargs v hv).apart) fun hc => hc.1.elim hother
    · split
      · exact .pure
      · exact .pure

end Guards

/-! ## What constructors make -/

section

variable {w w' : World} {cx : ContextId} {obj : ObjectId}

theorem Engine.createWithPrototype_ok {proto : Option ObjectId}
    (h : (createWithPrototype cx proto).run w = .ok obj w') :
    obj = ⟨w.objects.next⟩ ∧ w'.objects = w.objects.insert { context := cx, prototype := proto } := by
  cases proto with
  | none =>
    cases h
    exact ⟨rfl, rfl⟩
  | some p =>
    obtain ⟨_, _, hc, hallocate⟩ := bind_ok h
    obtain ⟨rfl, -⟩ := checkOwned_ok hc
    cases hallocate
    exact ⟨rfl, rfl⟩

/-- **What a class constructor makes** carries a bound exclusive handle. -/
theorem World.constructed {n : Nat} {c : ForeignValue} {args : List ForeignValue} {cls : ClassKey}
    {data : Nat} (hc : w.code? c = some (.member cls .construct, data))
    (h : (construct (runner n) cx c args).run w = .ok (.object obj) w') :
    ∃ id y, w'.Carried id obj ∧ w'.handle? id = some y ∧ y.state = .bound ∧ y.ownership = .exclusive := by
  obtain ⟨r, w₁, hcallable, hrest₁⟩ := bind_ok h
  obtain ⟨rfl, hcode⟩ := Finds.callable r w₁ hcallable
  obtain ⟨id, code, data'⟩ := r
  cases hc.symm.trans hcode
  obtain ⟨_, w₂, howned, hrest₂⟩ := bind_ok hrest₁
  obtain ⟨rfl, -⟩ := checkOwned_ok howned
  obtain ⟨this, w₃, hcreate, hrest₃⟩ := bind_ok hrest₂
  obtain ⟨proto, u, -, hnew⟩ := bind_ok hcreate
  obtain ⟨rfl, hobjects⟩ := createWithPrototype_ok hnew
  obtain ⟨v, w₄, hcall, hreturn⟩ := bind_ok hrest₃
  cases n with
  | zero => cases hcall
  | succ n =>
    obtain ⟨rfl, w₅, inst, hsame, -, hattach⟩ := World.attach_of_constructMember hcall rfl rfl
    cases hreturn
    obtain ⟨u', y, hattached⟩ := World.attached hattach (hsame.trans hobjects)
    obtain ⟨objects, held, hframe⟩ := hattached.defined.frame
    obtain ⟨o, ho, -, -, -, ha, -⟩ := hattached.defined.object _ _ hattached.object
    refine ⟨_, y, ⟨o, ho, ha⟩, ?_, hattached.state, hattached.ownership⟩
    rw [hframe]
    exact hattached.handle

end

end Isthmus
