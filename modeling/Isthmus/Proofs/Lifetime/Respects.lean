import Isthmus.Proofs.Lifetime.Reserved

/-!
# Proofs/Lifetime/Respects — native code and reserved instances

Whether an instance stays reserved depends on the values in the hands of an action, so the rules here speak
of what an action gives as well as of the world in which it ends (`Engine.Respects`).

Some native members keep an argument or give one back (`World.passesOn`).  If these are given no reserved
instance, native code gives none back and keeps none: what its instances hold, the named values and the
instances that it makes are all that it has.
-/

namespace Isthmus

/-! ## What native code passes on -/

/-- Doing this keeps an argument or gives one back. -/
def Puppet.Behaviour.passesOn : Puppet.Behaviour → Bool
  | .echo _ | .all | .emit _ | .spawnEmit _ | .store _ => true
  | _ => false

/-- The method of a puppet class keeps an argument or gives one back. -/
def Plans.passesOn (plans : Plans) (i : Fin 3) (index : Nat) : Bool :=
  ((plans.plan i).behaviour? index).any (·.passesOn)

/-- The method of the instance keeps an argument or gives one back.  A calculator remembers a value. -/
def Instance.passesOn (plans : Plans) (index : Nat) : Instance → Bool
  | .calculator _ => index = 5
  | .puppet i .. => plans.passesOn i index
  | _ => false

/-- The static method of the class keeps an argument or gives one back. -/
def ClassKey.passesOn (plans : Plans) (index : Nat) : ClassKey → Bool
  | .puppet i => plans.passesOn i index
  | _ => false

/-- The instance keeps what is written to its properties.  Only numbers can be written to a calculator. -/
def Instance.keepsWritten : Instance → Bool
  | .puppet .. => true
  | _ => false

/-- The instance of the handle that a value carries. -/
def World.instanceOf? (w : World) (v : ForeignValue) : Option Instance := do
  let o ← w.object? (← v.asObject?)
  match o.attachment with
  | some (.handle id) => w.instance? (← w.handle? id).inst
  | _ => none

/-- Native code that is called so keeps an argument or gives one back. -/
def World.passesOn (w : World) (info : CallInfo) : Callback → Bool
  | .member _ .invoke => (w.instanceOf? info.receiver).any (·.passesOn w.plans info.data)
  | .member cls .invokeStatic => cls.passesOn w.plans info.data
  | .member _ .set => (w.instanceOf? info.receiver).any (·.keepsWritten)
  | _ => false

/-! ## Results -/

/-- If there is a result, it is as said. -/
def Results {ε α : Type} (Q : α → Prop) (r : Except ε α) : Prop :=
  ∀ a, r = .ok a → Q a

namespace Results

variable {ε α β : Type} {Q : α → Prop}

theorem ok {a : α} (h : Q a) : Results Q (.ok a : Except ε α) :=
  fun _ ha => Except.ok.inj ha ▸ h

theorem error {e : ε} : Results Q (.error e) :=
  fun _ h => nomatch h

/-- What follows a result has to be right for right results only. -/
theorem bind {m : Except ε β} {f : β → Except ε α} (h : ∀ b, m = .ok b → Results Q (f b)) :
    Results Q (m >>= f) := by
  cases m with
  | ok b => exact h b rfl
  | error e => exact error

end Results

/-! ## Actions -/

/-- The action leads from this world to one in which the reservations stand, and what it gives is as said. -/
def Engine.RespectsAt {α : Type} (x : Reserve) (Q : α → Prop) (m : Engine α) (w : World) : Prop :=
  (m.after w).Reserved x ∧ ∀ a w', m.run w = .ok a w' → Q a

/-- From any world in which the reservations stand the action leads to one in which they do, and what it
gives is as said. -/
def Engine.Respects {α : Type} (x : Reserve) (Q : α → Prop) (m : Engine α) : Prop :=
  ∀ w, w.Reserved x → RespectsAt x Q m w

namespace Engine.RespectsAt

variable {α β : Type} {x : Reserve} {P Q : α → Prop} {R : β → Prop} {m : Engine α} {w : World}

/-- One action after another, from a world on. -/
theorem bind {f : α → Engine β} (hm : RespectsAt x P m w) (hf : ∀ a, P a → Respects x R (f a)) :
    RespectsAt x R (m >>= f) w := by
  obtain ⟨hafter, hgives⟩ := hm
  rw [RespectsAt, Engine.after_bind]
  cases hr : m.run w with
  | ok a w' =>
    rw [Engine.after_of_ok hr] at hafter
    rw [Engine.run_bind_of_ok hr]
    exact hf a (hgives a w' hr) w' hafter
  | error e w' =>
    rw [Engine.after_of_error hr] at hafter
    rw [Engine.run_bind_of_error hr]
    exact ⟨hafter, fun _ _ h => nomatch h⟩

/-- The second part may give anything. -/
theorem andThen {f : α → Engine β} (hm : RespectsAt x P m w) (hf : ∀ a, P a → Conserves x.Stands (f a)) :
    ((m >>= f).after w).Reserved x :=
  (hm.bind (R := fun _ => True) fun a ha w' hw' => ⟨hf a ha w' hw', fun _ _ _ => trivial⟩).1

/-- An action that looks at the world first. -/
theorem get {f : World → Engine α} (hw : w.Reserved x) (h : Respects x Q (f w)) :
    RespectsAt x Q (MonadState.get >>= f) w :=
  h w hw

end Engine.RespectsAt

namespace Engine.Respects

variable {α β : Type} {x : Reserve} {P Q : α → Prop} {R : β → Prop} {m : Engine α}

/-- An action that respects reservations keeps them. -/
theorem conserves (h : Respects x Q m) : Conserves x.Stands m :=
  fun w hw => (h w hw).1

/-- Conversely nothing is known of its result. -/
theorem of_conserves (h : Conserves x.Stands m) : Respects x (fun _ => True) m :=
  fun w hw => ⟨h w hw, fun _ _ _ => trivial⟩

/-- A result without effect has to be right. -/
theorem pure {a : α} (h : Q a) : Respects x Q (Pure.pure a : Engine α) := by
  refine fun w hw => ⟨hw, fun b w' hr => ?_⟩
  cases hr
  exact h

/-- What is thrown is no native value. -/
theorem throw {e : Stop} : Respects x Q (MonadExcept.throw e : Engine α) :=
  fun _ hw => ⟨hw, fun _ _ hr => nomatch hr⟩

theorem abort {text : String} : Respects x Q (Engine.abort text : Engine α) :=
  throw

/-- One action after another. -/
theorem bind {f : α → Engine β} (hm : Respects x P m) (hf : ∀ a, P a → Respects x R (f a)) :
    Respects x R (m >>= f) :=
  fun w hw => (hm w hw).bind hf

/-- The first part may give anything. -/
theorem after {f : α → Engine β} (hm : Conserves x.Stands m) (hf : ∀ a, Respects x R (f a)) :
    Respects x R (m >>= f) :=
  bind (of_conserves hm) fun a _ => hf a

/-- The second part may give anything. -/
theorem andThen {f : α → Engine β} (hm : Respects x P m) (hf : ∀ a, P a → Conserves x.Stands (f a)) :
    Conserves x.Stands (m >>= f) :=
  fun w hw => (hm w hw).andThen hf

/-- An action that looks at the world first. -/
theorem get {f : World → Engine α} (h : ∀ w, w.Reserved x → Respects x Q (f w)) :
    Respects x Q (MonadState.get >>= f) :=
  fun w hw => h w hw w hw

/-- An action that changes the world first. -/
theorem update {f : World → World} {k : World → Engine α} (hf : ∀ w, w.Reserved x → (f w).Reserved x)
    (hk : ∀ w, w.Reserved x → Respects x Q (k w)) :
    Respects x Q (do let w ← MonadState.get; set (f w); k w) :=
  fun w hw => hk w hw (f w) (hf w hw)

/-- An action for each item, and what its results are made of. -/
theorem mapM {f : β → Engine α} (h : ∀ b, Respects x Q (f b)) {bs : List β} :
    Respects x (fun as => ∀ a ∈ as, Q a) (bs.mapM f) := by
  induction bs with
  | nil => exact pure fun _ h => nomatch h
  | cons b bs ih =>
    rw [List.mapM_cons]
    exact bind (h b) fun a ha => bind ih fun as has => pure (List.forall_mem_cons.2 ⟨ha, has⟩)

end Engine.Respects

namespace Stands

open Engine (Respects)

variable {α β : Type} {x : Reserve}

/-- An action that looks at the world first. -/
theorem get {f : World → Engine α} (h : ∀ w, w.Reserved x → Conserves x.Stands (f w)) :
    Conserves x.Stands (MonadState.get >>= f) :=
  fun w hw => h w hw w hw

/-- A program that begins by reading may use what it read. -/
theorem get_now {f : World → Engine α} {w : World} (hw : w.Reserved x) (h : Conserves x.Stands (f w)) :
    ((MonadState.get >>= f).after w).Reserved x :=
  h w hw

/-- An action for each item. -/
theorem forM {f : α → Engine PUnit} {as : List α} (h : ∀ a ∈ as, Conserves x.Stands (f a)) :
    Conserves x.Stands (as.forM f) := by
  induction as with
  | nil => exact .pure
  | cons a as ih =>
    obtain ⟨ha, has⟩ := List.forall_mem_cons.1 h
    exact .bind ha fun _ => ih has

instance : Releases x.Stands where
  release _ fs hw := hw.release fs

/-- Letting go never gives a reserved instance a new owner. -/
theorem letGo {refs : List Ref} : Conserves x.Stands (Engine.letGo refs) :=
  fun _ hw => hw.release _

/-- Holding references that are free of reserved instances reserves nothing away. -/
theorem hold {refs : List Ref} (h : x.Free refs) : Conserves x.Stands (Engine.hold refs) :=
  .modify fun _ hw => hw.holding h

theorem keep {v : ForeignValue} : Conserves x.Stands (Engine.keep v) :=
  .bind (hold (Reserve.free_foreign v)) fun _ => .pure

end Stands

/-! ## Native values -/

namespace Reserve

variable {x : Reserve}

/-- A value refers to the same things inside of a variant. -/
theorem refs_toVariant (v : NativeValue) : v.toVariant.refs = v.refs := by
  rw [NativeValue.toVariant]
  split <;> rfl

/-- Coercion makes no instance appear. -/
theorem free_convert {v u : NativeValue} {t : TypeId} (hv : x.Free v.refs) (h : v.convert t = some u) :
    x.Free u.refs := by
  unfold NativeValue.convert at h
  split at h
  · cases h
    exact hv
  · split at h
    · cases h
      rwa [refs_toVariant]
    · split at h
      · refine free_convert ?_ h
        exact hv
      · split at h
        · cases h
          exact free_nil
        · split at h <;> cases h
          exact free_nil
      · split at h <;> cases h
        exact free_nil
      · split at h <;> cases h
        exact free_nil
      · cases h

/-- Arguments are free if all are. -/
theorem free_argument {args : List NativeValue} (h : ∀ v ∈ args, x.Free v.refs) (index : Nat) :
    Results (x.Free ·.refs) (argument args index) := by
  rw [argument]
  split
  · next v hv => exact .ok (h v (List.mem_of_getElem? hv))
  · exact .error

end Reserve

/-! ## Members of the library -/

/-- A puppet refers to the instances that its slots hold. -/
theorem Puppet.free_refs {x : Reserve} {i : Fin 3} {slots : List (Option NativeValue)} {source : SourceId} :
    x.Free (Instance.puppet i slots source).refs ↔ ∀ v, some v ∈ slots → x.Free v.refs := by
  have hsource : x.Free [.source source] := Reserve.free_of_forall fun i => by simp
  refine Reserve.free_append.trans ((and_iff_left hsource).trans (Reserve.free_flatMap.trans ?_))
  refine ⟨fun h v hv => h _ hv, fun h slot hslot => Reserve.free_refsOf.2 fun v hv => ?_⟩
  exact h v (hv ▸ hslot)

/-- A puppet keeps what is put into its slots. -/
theorem Puppet.free_set {x : Reserve} {i : Fin 3} {slots : List (Option NativeValue)} {source : SourceId}
    (h : x.Free (Instance.puppet i slots source).refs) {v : NativeValue} (hv : x.Free v.refs) (slot : Nat) :
    x.Free (Instance.puppet i (slots.set slot (some v)) source).refs := by
  refine Puppet.free_refs.2 fun u hu => ?_
  obtain hu | hu := List.mem_or_eq_of_mem_set hu
  · exact Puppet.free_refs.1 h u hu
  · cases hu
    exact hv

/-- A puppet gives what is in its slots. -/
theorem Puppet.free_slot {x : Reserve} {i : Fin 3} {slots : List (Option NativeValue)} {source : SourceId}
    (h : x.Free (Instance.puppet i slots source).refs) (slot : Nat) :
    ∀ v ∈ slots[slot]?.join, x.Free v.refs :=
  fun v hv => Puppet.free_refs.1 h v (List.mem_of_getElem? (Option.join_eq_some_iff.1 hv))

section

variable {x : Reserve} {nameOf : TypeId → String} {index : Nat} {args : List NativeValue}

/-- What a calculator remembers is an argument, and it gives back none. -/
theorem Calculator.free_evaluate (h : index = 5 → ∀ v ∈ args, x.Free v.refs) :
    Results (fun r => x.Free r.1.refs ∧ ∀ v ∈ r.2, x.Free v.refs)
      (Calculator.evaluate nameOf index args) := by
  have hplain {i : Int} : Results (fun r => x.Free r.1.refs ∧ ∀ v ∈ r.2, x.Free v.refs)
      (do return (← Calculator.checked i, none) : Except Fault (NativeValue × Option NativeValue)) := by
    refine .bind fun v hv => .ok ⟨?_, nofun⟩
    rw [Calculator.checked] at hv
    split at hv <;> cases hv
    exact Reserve.free_nil
  unfold Calculator.evaluate
  split
  · exact .bind fun _ _ => .bind fun _ _ => hplain
  · exact .bind fun _ _ => .bind fun _ _ => hplain
  · refine .bind fun _ _ => .bind fun _ _ => ?_
    dsimp only
    split
    · exact .bind fun _ h => nomatch h
    · exact .ok ⟨Reserve.free_nil, nofun⟩
  · exact .bind fun _ _ => .bind fun _ _ => .ok ⟨Reserve.free_nil, nofun⟩
  · exact .bind fun _ _ => .ok ⟨Reserve.free_nil, nofun⟩
  · refine .bind fun v hv => .ok ⟨Reserve.free_nil, fun u hu => ?_⟩
    cases hu
    rw [NativeValue.refs_unwrap]
    exact Reserve.free_argument (h rfl) 0 v hv
  · exact .error

/-- A calculator keeps an instance only by the member that remembers one. -/
theorem Calculator.free_invoke {c : Calculator} (hc : x.Free (Instance.calculator c).refs)
    (h : index = 5 → ∀ v ∈ args, x.Free v.refs) :
    Results (x.Free ·.refs) (c.invoke nameOf index args).1 ∧
      x.Free (Instance.calculator (c.invoke nameOf index args).2).refs := by
  have hresult : Results (fun r => x.Free r.1.refs ∧ ∀ v ∈ r.2, x.Free v.refs)
      (Calculator.evaluate nameOf index args) := Calculator.free_evaluate h
  rw [Calculator.invoke]
  dsimp only
  split
  · next v kept he => exact ⟨.ok (hresult _ he).1, (hresult _ he).2 kept rfl⟩
  · next v he => exact ⟨.ok (hresult _ he).1, hc⟩
  · exact ⟨.error, hc⟩

/-- The static members of a calculator give numbers. -/
theorem Calculator.free_invokeStatic :
    Results (x.Free ·.refs) (Calculator.invokeStatic nameOf index args) := by
  unfold Calculator.invokeStatic
  split
  · refine .bind fun n _ v hv => ?_
    rw [Calculator.checked] at hv
    split at hv <;> cases hv
    exact Reserve.free_nil
  · exact .error

/-- A calculator reads what it remembered. -/
theorem Calculator.free_read {c : Calculator} (hc : x.Free (Instance.calculator c).refs) :
    ∀ v ∈ c.read index, x.Free v.refs := by
  intro v hv
  unfold Calculator.read at hv
  split at hv <;> cases hv
  · exact Reserve.free_nil
  · exact Reserve.free_nil
  · cases hl : c.last with
    | none => exact Reserve.free_nil
    | some u =>
      rw [Instance.refs, hl] at hc
      exact hc

/-- Writing a property of a calculator leaves what it remembers. -/
theorem Calculator.last_write {c c' : Calculator} {v : NativeValue} (h : c.write index v = some c') :
    c'.last = c.last := by
  unfold Calculator.write at h
  split at h <;> cases h
  rfl

/-- What the members of a matrix give is free of reserved instances. -/
theorem Matrix.free_invoke {m : Matrix} : Results (x.Free ·.refs) (m.invoke nameOf index args) := by
  unfold Matrix.invoke
  split
  · exact .ok Reserve.free_nil
  · exact .ok Reserve.free_nil
  · exact .ok Reserve.free_nil
  · refine .bind fun _ _ => .bind fun _ _ => .bind fun _ _ => ?_
    split
    · next v hv =>
      unfold Matrix.sampleAt at hv
      dsimp only at hv
      split at hv <;> cases hv
      exact .ok Reserve.free_nil
    · exact .error
  · exact .error

/-- So is what its properties give. -/
theorem Matrix.free_read {m : Matrix} : ∀ v ∈ m.read index, x.Free v.refs := by
  intro v hv
  unfold Matrix.read at hv
  split at hv <;> cases hv
  exact Reserve.free_of_forall fun i => by simp [NativeValue.refs]

/-- What a count announces refers to nothing. -/
theorem Ticker.Count.free_run (value : Int32) (c : Ticker.Count) :
    ∀ a, .announced a ∈ c.run value → ∀ v ∈ a.args, x.Free v.refs := by
  have hstep {value value' : Int32} {c : Ticker.Count} {rest a b}
      (h : c.advance value = (value', rest, a)) (hb : .announced b = Ticker.Deed.ofStep value' a) :
      ∀ v ∈ b.args, x.Free v.refs := by
    intro v hv
    unfold Ticker.Count.advance at h
    split at h <;> cases h <;> cases hb
    · cases List.mem_singleton.1 hv
      exact Reserve.free_nil
    · cases hv
  intro b hb
  induction value, c using Ticker.Count.run.induct with
  | case1 value c value' c' a h _ ih =>
    rw [Ticker.Count.run] at hb
    split at hb
    · next h' =>
      cases h.symm.trans h'
      obtain hb | hb := List.mem_cons.1 hb
      · exact hstep h hb
      · exact ih hb
    · next h' => cases h.symm.trans h'
  | case2 value c value' a h =>
    rw [Ticker.Count.run] at hb
    split at hb
    · next h' => cases h.symm.trans h'
    · next h' =>
      cases h.symm.trans h'
      exact hstep h (List.mem_singleton.1 hb)

end

/-! ## Building native values -/

namespace Stands

open Engine (Respects)

variable {α : Type} {x : Reserve}

theorem createBuffer {bytes label} : Conserves x.Stands (Engine.createBuffer bytes label) :=
  fun _ hw => hw.of_eq rfl

theorem createSource : Conserves x.Stands Engine.createSource :=
  fun _ hw => hw.of_eq rfl

/-- An instance that is made now is not reserved. -/
theorem createInstanceOf {n : Instance} (hn : x.Free n.refs) :
    Respects x x.Spare (Engine.createInstanceOf n) :=
  .update (fun _ hw => hw.addInstance hn) fun _ hw => .pure hw.spare_new

/-- A matrix as a value is a new instance, which nobody has reserved. -/
theorem matrixValue {m : Matrix} : Respects x (x.Free ·.refs) (Engine.matrixValue m) :=
  .bind (createInstanceOf (n := .matrix m) (Reserve.free_of_forall fun i => by simp [Instance.refs, Matrix.refs]))
    fun _ h => .pure (Reserve.free_inst.2 h)

mutual

/-- What is built holds named values and new instances only. -/
theorem build {r : Recipe} : Respects x (fun v => ∀ u ∈ v, x.Free u.refs) (Engine.build r) := by
  have hplain {u : NativeValue} (h : u.refs = []) : ∀ v ∈ some u, x.Free v.refs := by
    intro v hv
    cases hv
    rw [h]
    exact Reserve.free_nil
  cases r with
  | buffer bytes =>
    refine .after createBuffer fun b => .pure fun v hv => ?_
    cases hv
    exact Reserve.free_of_forall fun i => by simp [NativeValue.refs]
  | list items =>
    refine .bind buildAll fun vs hvs => .pure fun v hv => ?_
    obtain ⟨us, hus, rfl⟩ := Option.map_eq_some_iff.1 hv
    exact Reserve.free_items.2 (hvs us hus)
  | variant content =>
    refine .bind build fun v hv => .pure fun u hu => ?_
    obtain ⟨c, hc, rfl⟩ := Option.map_eq_some_iff.1 hu
    rw [Reserve.refs_toVariant]
    exact hv c hc
  | stranger type =>
    refine .bind (createInstanceOf Reserve.free_nil) fun id hid => .pure fun v hv => ?_
    cases hv
    exact Reserve.free_inst.2 hid
  | matrix rows cols channels samples =>
    refine .after createBuffer fun b => ?_
    split
    · refine .bind matrixValue fun v hv => .pure fun u hu => ?_
      cases hu
      exact hv
    · exact .pure nofun
  | deferred name =>
    refine .get fun w hw => .pure fun v hv => ?_
    obtain ⟨d, -, rfl⟩ := Option.map_eq_some_iff.1 hv
    exact Reserve.free_of_forall fun i => by simp [NativeValue.refs]
  | named name =>
    refine .get fun w hw => .pure fun v hv => ?_
    obtain ⟨e, he, rfl⟩ := Names.mem_of_find? hv
    exact hw.natives e he
  | _ => exact .pure (hplain rfl)

/-- Recipes make values out of what is there. -/
theorem buildAll {rs : List Recipe} :
    Respects x (fun vs => ∀ us ∈ vs, ∀ u ∈ us, x.Free u.refs) (Engine.buildAll rs) := by
  cases rs with
  | nil =>
    refine .pure fun us hus => ?_
    cases hus
    exact nofun
  | cons r rest =>
    refine .bind build fun v hv => .bind buildAll fun vs hvs => .pure fun us hus => ?_
    obtain ⟨u, hu, hus⟩ := Option.bind_eq_some_iff.1 hus
    obtain ⟨us', hus', hus⟩ := Option.bind_eq_some_iff.1 hus
    cases hus
    exact List.forall_mem_cons.2 ⟨hv u hu, hvs us' hus'⟩

end

/-- A new instance is not reserved. -/
theorem createDefault (cls : ClassKey) : Respects x x.Spare (Engine.createDefault cls) := by
  have hsource {s : SourceId} : x.Free [.source s] := Reserve.free_of_forall fun i => by simp
  cases cls with
  | matrix =>
    exact .after createBuffer fun b => createInstanceOf (Reserve.free_of_forall fun i => by
      simp [Instance.refs, Matrix.refs])
  | ticker => exact .after createSource fun s => createInstanceOf hsource
  | puppet i =>
    refine .get fun w hw => ?_
    refine .bind (P := fun slots => ∀ v ∈ slots, ∀ u ∈ v, x.Free u.refs) (.mapM fun slot => ?_) fun _ hslots =>
      .after createSource fun s => createInstanceOf (Puppet.free_refs.2 fun v hv => hslots _ hv v rfl)
    split
    · exact build
    · exact .pure nofun
  | _ => exact createInstanceOf Reserve.free_nil

/-! ## Native members -/

theorem createDeferred : Conserves x.Stands Engine.createDeferred :=
  fun _ hw => hw.newDeferred

theorem spawn {job : Job} (h : x.Tolerates job) : Conserves x.Stands (Engine.spawn job) :=
  .modify fun _ hw => hw.addJob h

/-- A firing passes its arguments on. -/
theorem emit {source event} {args : List NativeValue} (h : ∀ v ∈ args, x.Free v.refs) :
    Conserves x.Stands (Engine.emit source event args) := by
  refine get fun w _ => ?_
  split
  · exact .forM fun id => .operate fun w hw => hw.fire id event h
  · exact .pure

/-- A failure of native code is no value. -/
theorem settleFault {Q : α → Prop} {r : Except Fault α} (h : Results Q r) :
    Respects x (Results Q) (Engine.settleFault r) := by
  unfold Engine.settleFault
  split
  · exact .pure (.ok (h _ rfl))
  · exact .pure .error
  · exact .abort

/-- An instance keeps what its members leave it. -/
theorem updateInstance {id before} {after : Instance} (h : x.Free after.refs) :
    Conserves x.Stands (Engine.updateInstance id before after) :=
  .bind (.modify fun _ hw => hw.changeInstance h) fun _ => letGo

/-- A request for an image makes a deferred and a job. -/
theorem fulfil {request : Imaging.Request} : Respects x (x.Free ·.refs) (Engine.fulfil request) := by
  cases request with
  | create m => exact .after createBuffer fun _ => matrixValue
  | schedule work =>
    refine .after createDeferred fun d => .after (spawn ?_) fun _ => .pure ?_
    · exact Reserve.free_of_forall fun i => by cases work <;> simp [Job.refs, workRefs, Matrix.refs]
    · exact Reserve.free_of_forall fun i => by simp [NativeValue.refs]

section

variable {args : List NativeValue}

/-- What a puppet does passes its arguments on only where it is told to. -/
theorem perform {index} {behaviour : Puppet.Behaviour}
    (h : behaviour.passesOn → ∀ v ∈ args, x.Free v.refs) :
    Respects x (Results (x.Free ·.refs)) (Engine.perform index args behaviour) := by
  have hdeferred {d : DeferredId} : x.Free (NativeValue.deferred d).refs :=
    Reserve.free_of_forall fun i => by simp [NativeValue.refs]
  unfold Engine.perform
  split
  · refine .bind build fun v hv => ?_
    split
    · exact .pure (.ok (hv _ rfl))
    · exact .pure .error
  · exact .pure .error
  · exact settleFault (Reserve.free_argument (h rfl) _)
  · exact .pure (.ok (Reserve.free_items.2 (h rfl)))
  · refine .after createDeferred fun d => ?_
    have hjob {outcome : Option (DeferredStatus × NativeValue)} (ho : ∀ o ∈ outcome, x.Free o.2.refs) :
        x.Tolerates (.complete d outcome) :=
      Reserve.free_cons (r := .deferred d).2
        ⟨Reserve.free_of_forall fun i => by simp, Reserve.free_refsOf.2 ho⟩
    split
    · exact .after (spawn (hjob nofun)) fun _ => .pure (.ok hdeferred)
    · refine .bind build fun v hv => .after (spawn (hjob fun o ho => ?_)) fun _ => .pure (.ok hdeferred)
      obtain ⟨u, hu, rfl⟩ := Option.map_eq_some_iff.1 ho
      exact hv u hu
  · exact .pure .error

/-- A method that passes no reserved instance on gives none back and keeps none. -/
theorem invoke_now {w : World} {id index} (hw : w.Reserved x)
    (h : ∀ n, w.instance? id = some n → n.passesOn w.plans index → ∀ v ∈ args, x.Free v.refs) :
    Engine.RespectsAt x (Results (x.Free ·.refs)) (Engine.invoke id index args) w := by
  refine .get hw ?_
  dsimp only
  split
  · next c hc =>
    have hargs : index = 5 → ∀ v ∈ args, x.Free v.refs := fun hi => h _ hc (decide_eq_true hi)
    exact .after (updateInstance (Calculator.free_invoke (hw.instances _ _ hc) hargs).2) fun _ =>
      settleFault (Calculator.free_invoke (hw.instances _ _ hc) hargs).1
  · exact settleFault Matrix.free_invoke
  · refine .bind (settleFault (Q := fun _ => True) fun _ _ => trivial) fun r _ => ?_
    split
    · exact .bind fulfil fun v hv => .pure (.ok hv)
    · exact .pure .error
  · next value source hs =>
    have hticker (value : Int32) : x.Free (Instance.ticker value source).refs :=
      Reserve.free_of_forall fun i => by simp [Instance.refs]
    refine .bind (settleFault (Q := fun _ => True) fun _ _ => trivial) fun r _ => ?_
    split
    · refine .after (updateInstance (hticker _)) fun _ => .after (emit fun v hv => ?_) fun _ =>
        .pure (.ok Reserve.free_nil)
      cases List.mem_singleton.1 hv
      exact Reserve.free_nil
    · exact .after (spawn trivial) fun _ => .pure (.ok Reserve.free_nil)
    · exact .pure .error
  · next i slots source hs =>
    have hslots := hw.instances _ _ hs
    have hfree {b} (hb : (w.plans.plan i).behaviour? index = some b) (hp : b.passesOn) :
        ∀ v ∈ args, x.Free v.refs := by
      refine h _ hs ?_
      rw [Instance.passesOn, Plans.passesOn, hb]
      exact hp
    split
    · next hb => exact .after (emit (hfree hb rfl)) fun _ => .pure (.ok Reserve.free_nil)
    · next hb =>
      refine .after (spawn ?_) fun _ => .pure (.ok Reserve.free_nil)
      exact Reserve.free_cons (r := .source source).2
        ⟨Reserve.free_of_forall fun i => by simp, Reserve.free_items.2 (hfree hb rfl)⟩
    · next hb =>
      refine .bind (settleFault (Reserve.free_argument (hfree hb rfl) 0)) fun r hr => ?_
      split
      · exact .after (updateInstance (Puppet.free_set hslots (hr _ rfl) _)) fun _ =>
          .pure (.ok Reserve.free_nil)
      · exact .pure .error
    · next slot _ =>
      refine .pure (.ok ?_)
      cases hv : slots[slot]?.join with
      | none => exact Reserve.free_nil
      | some v => exact Puppet.free_slot hslots slot v hv
    · next hb => exact perform (hfree hb)
    · exact .pure .error
  · exact .pure .error

/-- A static member passes on only what it is known to pass on. -/
theorem invokeStatic_now {w : World} {cls : ClassKey} {index} (hw : w.Reserved x)
    (h : cls.passesOn w.plans index → ∀ v ∈ args, x.Free v.refs) :
    Engine.RespectsAt x (Results (x.Free ·.refs)) (Engine.invokeStatic cls index args) w := by
  unfold Engine.invokeStatic
  split
  · exact settleFault Calculator.free_invokeStatic w hw
  · refine .get hw ?_
    split
    · next hb =>
      refine perform fun hp => h ?_
      rw [ClassKey.passesOn, Plans.passesOn, hb]
      exact hp
    · exact .pure .error
  · exact Respects.pure .error w hw

end

/-- What a property gives is free of reserved instances. -/
theorem readMember {id index} : Respects x (fun r => ∀ v ∈ r, x.Free v.refs) (Engine.readMember id index) := by
  refine .get fun w hw => ?_
  split
  · next c hc => exact .pure (Calculator.free_read (hw.instances _ _ hc))
  · next m _ => exact .pure Matrix.free_read
  · refine .pure fun v hv => ?_
    split at hv <;> cases hv
    exact Reserve.free_nil
  · next slots _ hs => exact .pure (Puppet.free_slot (hw.instances _ _ hs) index)
  · exact .pure nofun

/-- A property keeps what is written to it only where it is known to. -/
theorem writeMember_now {w : World} {id index v} (hw : w.Reserved x)
    (h : ∀ n, w.instance? id = some n → n.keepsWritten → x.Free v.refs) :
    ((Engine.writeMember id index v).after w).Reserved x := by
  refine get_now hw ?_
  split
  · next c hc =>
    split
    · next c' hw' =>
      refine .bind (updateInstance ?_) fun _ => .pure
      have hfree : x.Free (refsOf NativeValue.refs c.last) := hw.instances _ _ hc
      rwa [← Calculator.last_write hw'] at hfree
    · exact .pure
  · next i slots source hs =>
    refine .ite (fun _ => .bind (updateInstance ?_) fun _ => .pure) fun _ => .pure
    exact Puppet.free_set (hw.instances _ _ hs) (h _ hs rfl) index
  · exact .pure

/-! ## Background work -/

/-- A completion passes its value on. -/
theorem complete {id status v} (hv : x.Free v.refs) : Conserves x.Stands (Engine.complete id status v) := by
  refine .now fun w => ?_
  split
  · exact Conserves.pure w
  · next done hd =>
    obtain ⟨w', more⟩ := done
    exact Conserves.operate_now (fun hw => hw.complete hv hd) fun _ => .pure

/-- A deed passes on the arguments of its announcement. -/
theorem enact {id : InstanceId} {deed : Ticker.Deed}
    (h : ∀ a, deed = .announced a → ∀ v ∈ a.args, x.Free v.refs) :
    Conserves x.Stands (Engine.enact id deed) := by
  refine get fun w _ => ?_
  split
  · next source _ =>
    cases deed with
    | reached v =>
      have hticker : x.Free (Instance.ticker v source).refs :=
        Reserve.free_of_forall fun i => by simp [Instance.refs]
      exact updateInstance hticker
    | announced a => exact emit (h a rfl)
  · exact .pure

/-- A background job passes on only what it was given. -/
theorem runJob {job : Job} (h : x.Tolerates job) : Conserves x.Stands (Engine.runJob job) := by
  cases job with
  | image d work =>
    refine get fun w _ => ?_
    split
    · exact .bind createBuffer fun _ => matrixValue.andThen fun v hv => .bind (complete hv) fun _ => .pure
    · exact .bind (complete Reserve.free_nil) fun _ => .pure
  | count id count =>
    refine get fun w _ => ?_
    split
    · next value _ _ =>
      exact forM fun deed hd => enact fun a ha => count.free_run value a (ha ▸ hd)
    · exact .pure
  | complete d outcome =>
    have hfree := (Reserve.free_cons (r := .deferred d)).1 h
    cases outcome with
    | none => exact .pure
    | some o => exact .bind (complete hfree.2) fun _ => .pure
  | emit source event args =>
    exact emit (Reserve.free_items.1 ((Reserve.free_cons (r := .source source)).1 h).2)

/-- Jobs that are run keep reservations, one after the other. -/
theorem runJobs {count} : Conserves x.Stands (Engine.runJobs count) := by
  induction count with
  | zero => exact .pure
  | succ count ih =>
    refine .now fun w hw => ?_
    have hjobs := hw.jobs
    split
    · exact hw
    · next job jobs he =>
      have hjob : Conserves x.Stands (Engine.runJob job) := runJob (hjobs job (he ▸ List.mem_cons_self ..))
      have hdone : Conserves x.Stands (modify fun w => { w with jobs := w.jobs.tail }.sweep : Engine Unit) :=
        .modify fun _ hw => hw.dropJob.release _
      exact Conserves.bind hjob (fun _ => .bind hdone fun _ => ih) w hw

theorem finishJobs : Conserves x.Stands Engine.finishJobs :=
  .bind .get fun _ => runJobs

end Stands

end Isthmus
