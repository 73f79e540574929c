import Isthmus.Proofs.Lifetime.Keeps

/-!
# Proofs/Lifetime/Handles — the life of handles and native instances

Between the steps of a session nothing is held and everything has an owner (`World.Settled`).  So a handle
is bound as long as the object is there that carries it, and an instance is there as long as a handle, a
native value or a native owner refers to it.

* `Session.lifecycle` — how handles, native data and instances of a session come and go.
-/

namespace Isthmus

open World

/-! ## Background work -/

namespace Engine

variable {α β : Type}

/-- The action comes to its end and leaves what is held as it was. -/
def Calm (m : Engine α) : Prop :=
  ∀ w, Gives m w fun _ w' => w'.held = w.held

namespace Calm

/-- A result without effect is calm. -/
theorem pure {a : α} : Calm (Pure.pure a) :=
  fun _ => .pure rfl

/-- Calm actions follow each other. -/
theorem bind {m : Engine α} {f : α → Engine β} (hm : Calm m) (hf : ∀ a, Calm (f a)) : Calm (m >>= f) :=
  fun w => (hm w).bind fun a w' h => (hf a w').mono fun _ _ h' => h'.trans h

theorem get {f : World → Engine β} (hf : ∀ w, Calm (f w)) : Calm (MonadState.get >>= f) :=
  fun w => .get (hf w w)

/-- A change that holds nothing is calm. -/
theorem modify {f : World → World} (h : ∀ w, (f w).held = w.held) :
    Calm (modifyGet fun w => ((), f w) : Engine Unit) :=
  fun w => .intro rfl (h w)

/-- So is an operation that holds nothing. -/
theorem operate {f : World → World × List Farewell} (h : ∀ w, (f w).1.held = w.held) :
    Calm (Engine.operate f) :=
  modify fun w => (Thins.release _ _).held.trans (h w)

theorem letGo {refs : List Ref} : Calm (Engine.letGo refs) :=
  modify fun w => (Thins.release w _).held

theorem forM {f : α → Engine PUnit} (h : ∀ a, Calm (f a)) {as : List α} : Calm (as.forM f) := by
  induction as with
  | nil => exact pure
  | cons a as ih => exact bind (h a) fun _ => ih

theorem createBuffer {bytes label} : Calm (Engine.createBuffer bytes label) :=
  fun _ => .intro rfl rfl

theorem matrixValue {m} : Calm (Engine.matrixValue m) :=
  fun _ => .intro rfl rfl

/-- A completion holds nothing. -/
theorem complete {id status v} : Calm (Engine.complete id status v) := by
  intro w
  refine .get ?_
  split
  · exact .pure rfl
  · next done hd =>
    obtain ⟨w', more⟩ := done
    obtain ⟨d, -, -, -, hp⟩ := World.complete_posts hd
    exact .intro rfl ((Thins.release w' more).held.trans hp.holdings.2)

/-- Neither does a firing. -/
theorem emit {source event args} : Calm (Engine.emit source event args) := by
  refine get fun w => ?_
  split
  · exact forM fun id => operate fun w => (World.fire_holdings w id event args).2
  · exact pure

/-- Neither does a deed. -/
theorem enact {id deed} : Calm (Engine.enact id deed) := by
  refine get fun w => ?_
  split
  · cases deed with
    | reached v => exact bind (modify fun _ => rfl) fun _ => letGo
    | announced a => exact emit
  · exact pure

/-- Background work comes to its end. -/
theorem runJob {job} : Calm (Engine.runJob job) := by
  cases job with
  | image d work =>
    refine get fun w => ?_
    split
    · exact bind createBuffer fun _ => bind matrixValue fun _ => bind complete fun _ => pure
    · exact bind complete fun _ => pure
  | count id count =>
    refine get fun w => ?_
    split
    · exact forM fun _ => enact
    · exact pure
  | complete d outcome =>
    cases outcome with
    | none => exact pure
    | some o => exact bind complete fun _ => pure
  | emit source event args => exact emit

end Calm

end Engine

/-! ## Between steps -/

namespace World

variable {w w' : World}

/-- Nothing is held, and everything has an owner. -/
structure AtRest (w : World) : Prop where
  held : w.held = []
  unowned : w.unowned = []

/-- At rest, what is there is owned by something that is there. -/
theorem AtRest.mem_references (h : w.AtRest) {r : Ref} (hc : w.contains r) : r ∈ w.references :=
  Decidable.byContradiction fun hr => List.not_mem_nil (h.unowned ▸ mem_unowned_iff.2 ⟨hc, hr⟩)

/-- The world is at rest, and objects carry their handles in order. -/
structure Settled (w : World) : Prop extends AtRest w where
  orderly : w.Orderly

end World

namespace Session

variable {w : World}

/-- Background jobs leave the world at rest. -/
theorem runJobs_atRest (h : w.AtRest) (count : Nat) :
    Engine.Gives (Engine.runJobs count) w fun _ w' => w'.AtRest := by
  induction count generalizing w with
  | zero => exact .pure h
  | succ count ih =>
    refine .get ?_
    split
    · exact .pure h
    · refine .bind (Engine.Calm.runJob w) fun _ w' hheld => ?_
      have hdone : (modify fun w => { w with jobs := w.jobs.tail }.sweep : Engine Unit).run w' =
          .ok () { w' with jobs := w'.jobs.tail }.sweep := rfl
      have hheld' : { w' with jobs := w'.jobs.tail }.sweep.held = [] :=
        (Thins.release _ _).held.trans (hheld.trans h.held)
      exact .step hdone (ih ⟨hheld', unowned_sweep _⟩)

/-- What a step held is gone in the end, and so is everything that has no owner. -/
theorem conclude_atRest (h : w.held.tail = []) : (conclude.after w).AtRest := by
  have hclose : Engine.closeFrame.run w = .ok () { w with held := w.held.tail }.sweep := rfl
  have hrest : { w with held := w.held.tail }.sweep.AtRest :=
    ⟨(Thins.release _ _).held.trans h, unowned_sweep _⟩
  obtain ⟨_, w', hrun, hw'⟩ := runJobs_atRest hrest { w with held := w.held.tail }.sweep.jobs.length
  have hconclude : conclude.run w = .ok () w' := (Engine.run_bind_of_ok hclose).trans hrun
  rw [Engine.after_of_ok hconclude]
  exact hw'

/-- The end of a step lets go what the step held, and does the work that was submitted. -/
theorem conclude_edits (h : w.Orderly) : Edits w (conclude.after w) := by
  have hclose : Engine.closeFrame.run w = .ok () { w with held := w.held.tail }.sweep := rfl
  have hedits : Edits w { w with held := w.held.tail }.sweep :=
    (Relation.ReflTransGen.single (.still (.of_eq rfl))).tail (.release _)
  have hjobs : Conserves Keeps Engine.finishJobs := Conserves.finishJobs
  rw [Engine.after, conclude, Engine.run_bind_of_ok hclose]
  exact hedits.trans (hjobs _ (Edits.orderly hedits h)).1

/-- **A step of a session** is a sequence of edits, after which the world is settled. -/
theorem step_edits (h : w.Settled) (s : Script.Step) :
    Edits w (step w s).2 ∧ (step w s).2.Settled := by
  have hopen : w.Still { w with held := [[]] } := .of_eq rfl
  have hrun : Keeps { w with held := [[]] } ((runStep (runner depthLimit)
      { context := w.current } s).after { w with held := [[]] }) := Conserves.runStep (runs _) _
  obtain ⟨hedits, htail⟩ := hrun (hopen.orderly h.orderly)
  rw [step_snd]
  generalize (runStep (runner depthLimit) { context := w.current } s).after { w with held := [[]] } = w₁
    at hedits htail
  have hrest := conclude_atRest htail
  have hconclude := conclude_edits (Edits.orderly hedits (hopen.orderly h.orderly))
  generalize conclude.after w₁ = w₂ at hrest hconclude
  have hclear : w₂.Still { w₂ with log := [], held := [] } := .of_eq rfl
  have hall := (((Relation.ReflTransGen.single (.still hopen)).trans hedits).trans hconclude).tail
    (.still hclear)
  refine ⟨hall, ⟨rfl, ?_⟩, Edits.orderly hall h.orderly⟩
  have hlog : { w₂ with log := [], held := [] } = { w₂ with log := [], held := w₂.held } := by
    rw [hrest.held]
  rw [hlog]
  exact hrest.unowned

/-- **A session is a sequence of edits**, and the world is settled between its steps. -/
theorem steps_edits (h : w.Settled) (ss : List Script.Step) :
    Edits w (steps w ss).2 ∧ (steps w ss).2.Settled := by
  induction ss generalizing w with
  | nil => exact ⟨.refl, h⟩
  | cons s ss ih =>
    obtain ⟨hstep, hsettled⟩ := step_edits h s
    obtain ⟨hsteps, hend⟩ := ih hsettled
    exact ⟨hstep.trans hsteps, hend⟩

/-- A session begins settled. -/
theorem settled_start (plans : Plans) : World.Settled { plans } := by
  refine ⟨⟨rfl, rfl⟩, ⟨?_, ?_, nofun, nofun, ?_⟩⟩
  · rintro h obj ⟨o, ho, -⟩
    cases ho
  · rintro h obj obj' ⟨o, ho, -⟩
    cases ho
  · intro h x hx
    cases hx

end Session

/-! ## The life of a handle -/

namespace World

variable {w w' : World}

/-- How far a handle has come; one that is gone is released. -/
def stateOf (w : World) (h : HandleId) : HandleState :=
  ((w.handle? h).map (·.state)).getD .released

/-- The state of a handle that is there. -/
theorem stateOf_of_handle? {h : HandleId} {x : Handle} (hx : w.handle? h = some x) :
    w.stateOf h = x.state := by
  rw [stateOf, hx]
  rfl

/-- A handle is released when it is gone, and not before. -/
theorem Orderly.stateOf_eq_released_iff (hw : w.Orderly) {h : HandleId} :
    w.stateOf h = .released ↔ w.contains (.handle h) = false := by
  rw [contains, Store.contains_eq_isSome]
  cases hx : w.handle? h with
  | none =>
    rw [stateOf, hx]
    exact iff_of_true rfl (congrArg _ hx)
  | some x =>
    rw [stateOf_of_handle? hx]
    refine iff_of_false (hw.state hx) fun hn => ?_
    rw [show w.handles.get? h.index = some x from hx] at hn
    cases hn

/-- **The state of a handle never goes back**. -/
theorem Follows.rank_le (h : w.Follows w') {id : HandleId} (hlt : id.index < w.handles.next) :
    (w.stateOf id).rank ≤ (w'.stateOf id).rank := by
  cases hx' : w'.handle? id with
  | none =>
    have hgone : w'.stateOf id = .released := by
      rw [stateOf, hx']
      rfl
    rw [hgone]
    cases w.stateOf id <;> decide
  | some x' =>
    obtain ⟨x, hx, hadv⟩ := h.handles.old hlt hx'
    rw [stateOf_of_handle? hx', stateOf_of_handle? hx]
    exact hadv.rank_le

mutual

/-- No native value refers to a handle. -/
theorem handle_notMem_native (h : HandleId) (v : NativeValue) : .handle h ∉ v.refs := by
  cases v with
  | list items => exact handle_notMem_natives h items
  | variant content => exact handle_notMem_native h content
  | _ => simp [NativeValue.refs]

/-- No list of native values does. -/
theorem handle_notMem_natives (h : HandleId) (vs : List NativeValue) :
    .handle h ∉ NativeValue.refsIn vs := by
  cases vs with
  | nil => exact List.not_mem_nil
  | cons v vs =>
    rw [NativeValue.refsIn, List.mem_append, not_or]
    exact ⟨handle_notMem_native h v, handle_notMem_natives h vs⟩

end

/-- No wake refers to a handle. -/
theorem handle_notMem_wake (h : HandleId) (wake : Wake) : .handle h ∉ wake.refs := by
  cases wake with
  | settle slot status v => exact handle_notMem_native h v
  | event token args => exact handle_notMem_natives h args
  | script label body => exact List.not_mem_nil

/-- No native instance refers to a handle. -/
theorem handle_notMem_instance (h : HandleId) (i : Instance) : .handle h ∉ i.refs := by
  cases i with
  | calculator c =>
    rw [Instance.refs]
    cases c.last with
    | none => exact List.not_mem_nil
    | some v => exact handle_notMem_native h v
  | puppet index slots source =>
    rw [Instance.refs, List.mem_append, not_or, List.mem_flatMap]
    refine ⟨?_, by simp⟩
    rintro ⟨slot, -, hr⟩
    cases slot with
    | none => exact List.not_mem_nil hr
    | some v => exact handle_notMem_native h v hr
  | _ => simp [Instance.refs, Matrix.refs]

/-- No background job refers to a handle. -/
theorem handle_notMem_job (h : HandleId) (job : Job) : .handle h ∉ job.refs := by
  cases job with
  | image d work => cases work <;> simp [Job.refs, workRefs, Matrix.refs]
  | count inst count => simp [Job.refs]
  | complete d outcome =>
    cases outcome with
    | none => simp [Job.refs, refsOf]
    | some o => simp [Job.refs, refsOf, handle_notMem_native]
  | emit source event args => simp [Job.refs, handle_notMem_natives]

/-- No errand refers to a handle. -/
theorem handle_notMem_errand (h : HandleId) (e : Errand) : .handle h ∉ e.refs := by
  cases e with
  | aimed cx t args => exact handle_notMem_natives h args
  | armed cx wake => exact handle_notMem_wake h wake

theorem handle_notMem_handle (h : HandleId) (x : Handle) : .handle h ∉ x.refs := by
  cases hc : x.channels <;> simp [Handle.refs, hc, refsOf]

theorem handle_notMem_context (h : HandleId) (c : Context) : .handle h ∉ c.refs := by
  rw [Context.refs, List.mem_append, List.mem_cons, not_or, not_or]
  refine ⟨?_, by simp, ?_⟩
  · split
    · simp
    · exact List.not_mem_nil
  · cases c.exported <;> simp [refsOf]

/-- No installation refers to a handle. -/
theorem handle_notMem_installation (h : HandleId) (i : Installation) : .handle h ∉ i.refs := by
  simp [Installation.refs, handle_notMem_foreign]

/-- The host refers to handles by their names. -/
theorem handle_mem_roots_iff {h : HandleId} {r : Roots} :
    .handle h ∈ r.refs ↔ ∃ e ∈ r.handles, e.2 = h := by
  simp [Roots.refs, handle_notMem_foreign, handle_notMem_native]

/-- Objects refer to the handles that they carry. -/
theorem handle_mem_objects_iff {h : HandleId} :
    .handle h ∈ w.objects.values.flatMap Object.refs ↔ ∃ obj, w.Carried h obj := by
  rw [List.mem_flatMap]
  constructor
  · rintro ⟨o, ho, hr⟩
    obtain ⟨key, ho⟩ := Store.mem_values.1 ho
    rw [Object.refs, List.mem_append, or_iff_left (handle_notMem_contents o h)] at hr
    refine ⟨⟨key⟩, o, ho, ?_⟩
    cases ha : o.attachment with
    | none =>
      rw [ha] at hr
      exact absurd hr List.not_mem_nil
    | some data =>
      rw [ha] at hr
      cases data with
      | handle h' =>
        cases List.mem_singleton.1 hr
        rfl
      | plain data => exact absurd hr List.not_mem_nil
  · rintro ⟨obj, o, ho, ha⟩
    refine ⟨o, Store.mem_values.2 ⟨_, ho⟩, ?_⟩
    rw [Object.refs, ha]
    exact List.mem_cons_self ..

/-- **Handles are referred to** by the objects that carry them, by names, and by what is held. -/
theorem handle_mem_references_iff {h : HandleId} : .handle h ∈ w.references ↔
    (∃ obj, w.Carried h obj) ∨ (∃ e ∈ w.roots.handles, e.2 = h) ∨ .handle h ∈ w.held.flatten := by
  have hnone {α : Type} {f : α → List Ref} (hf : ∀ a, .handle h ∉ f a) (l : List α) :
      .handle h ∉ l.flatMap f := by
    rw [List.mem_flatMap]
    exact fun ⟨a, _, ha⟩ => hf a ha
  simp only [references, List.mem_append, handle_mem_roots_iff, handle_mem_objects_iff,
    hnone (handle_notMem_handle h), hnone (handle_notMem_instance h),
    hnone fun d : Deferred Settlement => handle_notMem_native h d.value,
    hnone (f := Channels.refs) fun c => by simp [Channels.refs],
    hnone (handle_notMem_installation h), hnone (handle_notMem_context h),
    hnone fun l : Loop => hnone (handle_notMem_wake h) l.queue,
    hnone fun d : ContextId × Wake => handle_notMem_wake h d.2, hnone (handle_notMem_errand h),
    hnone (handle_notMem_job h), or_false]
  rw [or_right_comm, or_comm (b := ∃ obj, w.Carried h obj), or_assoc]

/-! ## Between two moments of a session -/

/-- A settled world: a handle is bound as long as an object carries it, and unbound as long as it has a
name. -/
theorem Settled.bound_iff (hw : w.Settled) {h : HandleId} :
    w.stateOf h = .bound ↔ ∃ obj, w.Carried h obj := by
  constructor
  · intro hb
    cases hx : w.handle? h with
    | none =>
      rw [stateOf, hx] at hb
      cases hb
    | some x =>
      rw [stateOf_of_handle? hx] at hb
      obtain hc | ⟨e, he, rfl⟩ | hheld :=
        handle_mem_references_iff.1 (hw.mem_references (Store.contains_of_get? hx))
      · exact hc
      · obtain ⟨y, hy, hu⟩ := hw.orderly.named e he
        cases hx.symm.trans hy
        exact nomatch hb.symm.trans hu
      · rw [hw.held] at hheld
        exact absurd hheld List.not_mem_nil
  · rintro ⟨obj, hc⟩
    obtain ⟨x, hx, hb⟩ := hw.orderly.carried hc
    rw [stateOf_of_handle? hx, hb]

/-- An object of a later moment, if it is old enough, was there before and went on. -/
theorem Follows.object? (h : w.Follows w') {obj : ObjectId} {o' : Object}
    (hlt : obj.index < w.objects.next) (ho' : w'.object? obj = some o') :
    ∃ o, w.object? obj = some o ∧ o.Continues o' :=
  h.objects.old hlt ho'

/-- While its object is there, a handle is not released. -/
theorem Settled.released_iff (hw : w.Settled) (hw' : w'.Settled) (h : Edits w w') {id : HandleId}
    {obj : ObjectId} (hc : w.Carried id obj) :
    w'.stateOf id = .released ↔ w'.object? obj = none := by
  obtain ⟨x, hx, hb⟩ := hw.orderly.carried hc
  constructor
  · intro hr
    cases ho' : w'.object? obj with
    | none => rfl
    | some o' =>
      obtain ⟨o, ho, ha⟩ := hc
      obtain ⟨p, hp, hcont⟩ := (Edits.follows h).object? (Store.lt_next_of_get? ho) ho'
      cases ho.symm.trans hp
      rw [hw'.bound_iff.2 ⟨obj, o', ho', hcont.attachment _ ha⟩] at hr
      cases hr
  · intro hn
    have hrank := (Edits.follows h).rank_le (Store.lt_next_of_get? hx)
    rw [stateOf_of_handle? hx, hb] at hrank
    cases hs : w'.stateOf id with
    | unbound =>
      rw [hs] at hrank
      exact absurd hrank (Nat.not_succ_le_zero 0)
    | released => rfl
    | bound =>
      obtain ⟨obj', hc'⟩ := hw'.bound_iff.1 hs
      cases hw.orderly.unique (Edits.carried h hx hb hc') hc
      obtain ⟨o', ho', -⟩ := hc'
      cases hn.symm.trans ho'

/-- What letting go of things does. -/
structure Parts (w : World) (fs : List Farewell) : Prop where
  /-- Of the things that are let go of, those stay that have an owner left. -/
  last : ∀ r, .letGo r ∈ fs → w.contains r → ((w.release fs).contains r ↔ r ∈ (w.release fs).references)
  /-- Nothing goes that has an owner in the end. -/
  owned : ∀ r ∈ (w.release fs).references, w.contains r → (w.release fs).contains r
  /-- An object that goes lets go of its native data, then its finalizers report, each once and in the order
  in which they were added, and then it lets go of its contents. -/
  object : ∀ id o rest, fs = .letGo (.object id) :: rest → w.object? id = some o →
    .object id ∉ w.references → .letGo (.object id) ∉ rest →
    w.release fs = ((w.unwrapping id o rest).reporting o.finalizers).release (o.contents.map .letGo ++ rest)
  /-- When they report, a handle that the object carried is gone, or something else has it. -/
  handle : ∀ id o h rest, o.attachment = some (.handle h) → .letGo (.handle h) ∉ rest →
    (w.unwrapping id o rest).contains (.handle h) → .handle h ∈ (w.unwrapping id o rest).references

/-- **To release**, in any world. -/
theorem parts (w : World) (fs : List Farewell) : w.Parts fs where
  last _ := contains_release_iff
  owned := (sparesOwned_release w fs).contains
  object _ _ _ hfs ho hr hrest := hfs ▸ release_object ho hr hrest
  handle _ _ _ _ := handle_of_unwrapping

end World

end Isthmus
