import Isthmus.Proofs.Deferral.History
import Isthmus.Proofs.Run.Growth
import Isthmus.Proofs.Run.Names

/-!
# Proofs/Deferral/Steps — what a step does to deferreds

`Does` lists what can come of a task: a deferred is created, completed, given a continuation or taken
out, a continuation runs, or nothing happens but that handles go.  `does_step` says that every step is one
of these; laws about runs follow from the list.
-/

namespace Isthmus.Deferrals

/-! ## Tasks -/

/-- The continuation that a task begins, with its outcome. -/
def Task.continues? : Task → Option (Later × DeferralOutcome)
  | .continueWith k status v => some (k, status, v)
  | _ => none

/-- The task begins no continuation, and no handle goes with it. -/
def Task.isPlain : Task → Bool
  | .continueWith .. | .letGo _ => false
  | _ => true

/-- The continuations that wait to begin. -/
def waiting (tasks : List Task) : List (Later × DeferralOutcome) :=
  tasks.filterMap Task.continues?

/-- The tasks begin no continuation. -/
def Idle (tasks : List Task) : Prop :=
  ∀ t ∈ tasks, t.continues? = none

/-- A plain task runs no continuation. -/
theorem Task.continues?_of_isPlain {t : Task} (h : t.isPlain) : t.continues? = none := by
  cases t with
  | continueWith => cases h
  | _ => rfl

/-- No continuation waits among idle tasks. -/
theorem Idle.waiting {tasks : List Task} (h : Idle tasks) : waiting tasks = [] :=
  List.filterMap_eq_nil_iff.2 h

@[simp] theorem waiting_append (tasks more : List Task) :
    waiting (tasks ++ more) = waiting tasks ++ waiting more :=
  List.filterMap_append

/-- Idle tasks after idle tasks are idle. -/
theorem Idle.append {tasks more : List Task} (h : Idle tasks) (h' : Idle more) :
    Idle (tasks ++ more) := by
  intro t ht
  obtain ht | ht := List.mem_append.1 ht
  · exact h t ht
  · exact h' t ht

/-- Tasks that run no continuation are idle. -/
theorem Idle.map {ι : Type} {l : List ι} {f : ι → Task} (h : ∀ i, (f i).continues? = none) :
    Idle (l.map f) := by
  intro t ht
  obtain ⟨i, -, rfl⟩ := List.mem_map.1 ht
  exact h i

theorem idle_nil : Idle [] := by
  simp [Idle]

theorem idle_cons {t : Task} {tasks : List Task} (ht : t.continues? = none) (h : Idle tasks) :
    Idle (t :: tasks) := by
  simpa [Idle, ht] using h

/-! ## What can come of a task -/

/-- A deferred has a handle, or one that is about to go. -/
def Held (s : Deferrals) (tasks : List Task) (d : DeferredId) : Prop :=
  d ∈ s.handles ∨ .letGo d ∈ tasks

/-- The names are distinct, and stand for deferreds only. -/
structure Named (s : Deferrals) : Prop where
  nodup : (s.world.roots.deferreds.map (·.1)).Nodup
  natives : s.world.roots.natives = []

/-- The deferreds and what happened to them are as before, no handle is added, and those that are taken
away are let go. -/
structure Keeps (s s' : Deferrals) (more : List Task) : Prop where
  cells : s'.cells = s.cells
  history : s'.history = s.history
  attachments : s'.attachments = s.attachments
  named : Named s'
  handles : s'.handles ⊆ s.handles
  released : ∀ d ∈ s.handles, Held s' more d

/-- **What a step does**, by what comes of the task. -/
inductive Does (s : Deferrals) (others : List Task) : Task → Deferrals → List Task → Prop where
  | aside {task s' more} (hs : Keeps s s' more) (ht : task.isPlain) (hm : Idle more) :
      Does s others task s' more
  | create {task s' more} (hc : s'.cells = s.cells.insert {}) (hh : s'.history = s.history)
      (ha : s'.attachments = s.attachments) (hn : Named s') (hnew : ⟨s.cells.next⟩ ∈ s'.handles)
      (hs : ∀ d ∈ s'.handles, d = ⟨s.cells.next⟩ ∨ d ∈ s.handles)
      (hr : ∀ d ∈ s.handles, Held s' more d) (ht : task.isPlain) (hm : Idle more) :
      Does s others task s' more
  | refuse {task s₁ d status v more} (hs : Keeps s s₁ more) (hd : d ∈ s.handles)
      (hc : (s.cell? d).bind (·.complete status v) = none) (ht : task.isPlain) (hm : Idle more) :
      Does s others task (s₁.tell (.tried d status v false)) more
  | complete {task s₁ d cell status v more} (hs : Keeps s s₁ more) (hd : d ∈ s₁.handles)
      (hv : inside v ⊆ s₁.handles) (hc : s.cell? d = some cell) (hp : cell.status = .pending)
      (hst : status ≠ .pending) (ht : task.isPlain) (hm : Idle more) :
      Does s others task
        ({ s₁ with
          cells := s₁.cells.modify d.index fun _ => { status, value := v }
          held := d :: s₁.held }.tell (.tried d status v true))
        (cell.continuation.toList.map (.continueWith · status v) ++ more)
  | attach {task d cell k more} (hd : d ∈ s.handles) (hc : s.cell? d = some cell)
      (hp : cell.status = .pending) (hk : k.serial = s.attachments) (hn : Named s)
      (ht : task.isPlain) (hm : Idle more) :
      Does s others task
        ({ s with
          cells := s.cells.modify d.index fun _ => { cell with continuation := some k }
          held := d :: s.held
          attachments := s.attachments + 1 }.tell (.attached d k)) more
  | late {task d cell k more} (hd : d ∈ s.handles) (hc : s.cell? d = some cell)
      (hp : cell.status ≠ .pending) (hk : k.serial = s.attachments) (hn : Named s)
      (ht : task.isPlain) (hm : Idle more) :
      Does s others task
        ({ s with
          held := d :: s.held
          attachments := s.attachments + 1 }.tell (.attached d k))
        (.continueWith k cell.status cell.value :: more)
  | run {k status v s' more} (hs : Keeps (s.tell (.ran k status v)) s' more) (hm : Idle more) :
      Does s others (.continueWith k status v) s' more
  | stay {d} (hd : s.cell? d = none ∨ Held s others d) : Does s others (.letGo d) s []
  | gone {d cell} (hd : d ∉ s.handles) (hc : s.cell? d = some cell) (hn : Named s) :
      Does s others (.letGo d) ({ s with cells := s.cells.erase d.index }.tell (.gone d))
        (cell.abandoned.toList.map (.continueWith · .rejected Deferred.droppedReason) ++
          (inside cell.value).map .letGo)

variable {s s' : Deferrals} {d d' : DeferredId} {tasks more others : List Task}

/-- **Who owns a deferred**: a name, a value in another cell, or a call under way. -/
theorem mem_handles : d ∈ s.handles ↔
    (∃ e ∈ s.world.roots.deferreds, e.2 = d) ∨
      (∃ d' cell, s.cell? d' = some cell ∧ d ∈ inside cell.value) ∨ d ∈ s.held := by
  have hcell : (∃ cell ∈ s.cells.values, d ∈ inside cell.value) ↔
      ∃ d' cell, s.cell? d' = some cell ∧ d ∈ inside cell.value := by
    constructor
    · rintro ⟨cell, hc, hd⟩
      obtain ⟨key, hk⟩ := Store.mem_values.1 hc
      exact ⟨⟨key⟩, cell, hk, hd⟩
    · rintro ⟨d', cell, hc, hd⟩
      exact ⟨cell, Store.mem_values.2 ⟨d'.index, hc⟩, hd⟩
  rw [handles, List.mem_append, List.mem_append, List.mem_map, List.mem_flatMap, hcell, or_assoc]

/-- A deferred with a name is owned. -/
theorem mem_handles_of_name {e : String × DeferredId} (he : e ∈ s.world.roots.deferreds) :
    e.2 ∈ s.handles :=
  mem_handles.2 (.inl ⟨e, he, rfl⟩)

/-- One inside of a value is owned. -/
theorem mem_handles_of_inside {cell : Deferred Later} (hc : s.cell? d' = some cell)
    (hd : d ∈ inside cell.value) : d ∈ s.handles :=
  mem_handles.2 (.inr (.inl ⟨d', cell, hc, hd⟩))

/-- One that a call holds is owned. -/
theorem mem_handles_of_held (hd : d ∈ s.held) : d ∈ s.handles :=
  mem_handles.2 (.inr (.inr hd))

/-- What holds of all that names, values and calls own, holds of everything that is owned. -/
theorem forall_mem_handles {P : DeferredId → Prop} (hn : ∀ e ∈ s.world.roots.deferreds, P e.2)
    (hc : ∀ d cell, s.cell? d = some cell → ∀ d' ∈ inside cell.value, P d')
    (hh : ∀ d ∈ s.held, P d) : ∀ d ∈ s.handles, P d := by
  intro d hd
  obtain ⟨e, he, rfl⟩ | ⟨d', cell, hcell, hd⟩ | hd := mem_handles.1 hd
  · exact hn e he
  · exact hc d' cell hcell d hd
  · exact hh d hd

theorem mem_handles_of_find? {name : String} (h : s.find? name = some d) : d ∈ s.handles :=
  mem_handles.2 (.inl (Names.mem_of_find? h))

/-- More tasks hold no less. -/
theorem Held.mono (h : Held s tasks d) (ht : tasks ⊆ more) : Held s more d :=
  h.imp id fun hm => ht hm

/-- To do nothing is to keep what is owned. -/
theorem Keeps.refl (hn : Named s) : Keeps s s more :=
  ⟨rfl, rfl, rfl, hn, List.Subset.refl _, fun _ => .inl⟩

/-- Cells are kept as they are. -/
theorem Keeps.cell? (h : Keeps s s' more) (d : DeferredId) : s'.cell? d = s.cell? d := by
  rw [Deferrals.cell?, h.cells, Deferrals.cell?]

/-! ## Values -/

/-- The deferreds in a list are those in its items. -/
theorem inside_list (items : List NativeValue) : inside (.list items) = items.flatMap inside := by
  rw [inside, NativeValue.refs, NativeValue.refsIn_eq_flatMap]
  exact List.filterMap_flatMap

/-- A variant holds the same deferreds. -/
theorem inside_toVariant (v : NativeValue) : inside v.toVariant = inside v := by
  rw [NativeValue.toVariant]
  split
  · rfl
  · rw [inside, NativeValue.refs, inside]

/-- The names stay, and the values hold only deferreds that have names. -/
def Covers (w w' : World) (vs : List NativeValue) : Prop :=
  w'.roots = w.roots ∧ ∀ v ∈ vs, ∀ d ∈ inside v, ∃ e ∈ w.roots.deferreds, e.2 = d

/-- Without values there is nothing to cover. -/
theorem Covers.nil {w w' : World} (hr : w'.roots = w.roots) : Covers w w' [] :=
  ⟨hr, fun _ hv => by cases hv⟩

/-- A value without deferreds covers nothing. -/
theorem Covers.simple {w w' : World} (hr : w'.roots = w.roots) {v : NativeValue}
    (hv : inside v = []) : Covers w w' [v] := by
  refine ⟨hr, fun u hu d hd => ?_⟩
  rw [List.mem_singleton.1 hu, hv] at hd
  cases hd

mutual

/-- A recipe makes a value out of deferreds that have a name. -/
theorem gives_build (r : Recipe) {w : World} (hn : w.roots.natives = []) :
    Engine.Gives (Engine.build r) w fun v w' => Covers w w' v.toList := by
  cases r with
  | list items =>
    refine .bind (gives_buildAll items hn) fun vs w' hvs => .pure ?_
    cases vs with
    | none => exact .nil hvs.1
    | some vs =>
      refine ⟨hvs.1, fun v hv d hd => ?_⟩
      rw [List.mem_singleton.1 hv, inside_list, List.mem_flatMap] at hd
      obtain ⟨u, hu, hd⟩ := hd
      exact hvs.2 u hu d hd
  | variant content =>
    refine .bind (gives_build content hn) fun v w' hv => .pure ?_
    cases v with
    | none => exact .nil hv.1
    | some v =>
      refine ⟨hv.1, fun u hu d hd => ?_⟩
      rw [List.mem_singleton.1 hu, inside_toVariant] at hd
      exact hv.2 v (List.mem_singleton_self _) d hd
  | matrix rows cols channels samples =>
    refine .bind (P := fun _ w' => w'.roots = w.roots) ⟨_, _, rfl, rfl⟩ fun b w' hb => ?_
    split
    · exact .bind (P := fun v w'' => w''.roots = w'.roots ∧ inside v = []) ⟨_, _, rfl, rfl, rfl⟩
        fun v w'' hv => .pure (.simple (hv.1.trans hb) hv.2)
    · exact .pure (.nil hb)
  | deferred name =>
    refine .get (.pure ?_)
    cases hf : w.roots.deferreds.find? name with
    | none => exact .nil rfl
    | some d =>
      refine ⟨rfl, fun v hv d' hd => ?_⟩
      rw [List.mem_singleton.1 hv] at hd
      rw [List.mem_singleton.1 hd]
      exact Names.mem_of_find? hf
  | named name =>
    refine .get (.pure ?_)
    rw [hn]
    exact .nil rfl
  | _ => exact ⟨_, _, rfl, .simple rfl rfl⟩

/-- So do recipes, one after the other. -/
theorem gives_buildAll (rs : List Recipe) {w : World} (hn : w.roots.natives = []) :
    Engine.Gives (Engine.buildAll rs) w fun vs w' => Covers w w' (vs.getD []) := by
  cases rs with
  | nil => exact .pure (.nil rfl)
  | cons r rs =>
    refine .bind (gives_build r hn) fun v w₁ hv => ?_
    refine .bind (gives_buildAll rs (by rw [hv.1]; exact hn)) fun vs w' hvs => .pure ?_
    have hr : w'.roots = w.roots := hvs.1.trans hv.1
    cases v with
    | none => exact .nil hr
    | some v =>
      cases vs with
      | none => exact .nil hr
      | some vs =>
        refine ⟨hr, fun u hu d hd => ?_⟩
        obtain rfl | hu := List.mem_cons.1 hu
        · exact hv.2 u (List.mem_singleton_self _) d hd
        · rw [← hv.1]
          exact hvs.2 u hu d hd

end

/-! ## What keeps the deferreds -/

/-- Owners are names, cells and calls, and nothing else. -/
theorem handles_eq (hc : s'.cells = s.cells) (hr : s'.world.roots = s.world.roots)
    (hd : s'.held = s.held) : s'.handles = s.handles := by
  rw [handles, hr, hc, hd, handles]

/-- Who leaves these alone keeps what is owned. -/
theorem Keeps.of_eq (hn : Named s) (hc : s'.cells = s.cells) (hh : s'.history = s.history)
    (ha : s'.attachments = s.attachments) (hr : s'.world.roots = s.world.roots)
    (hd : s'.held = s.held) : Keeps s s' more := by
  have hhandles := handles_eq hc hr hd
  refine ⟨hc, hh, ha, ⟨?_, ?_⟩, fun d hd => hhandles ▸ hd, fun d hd => .inl (hhandles ▸ hd)⟩
  · rw [hr]
    exact hn.nodup
  · rw [hr]
    exact hn.natives

/-- To build a value keeps what is owned, and the value owns what was owned before. -/
theorem build_keeps (hn : Named s) (r : Recipe) (more : List Task) :
    Keeps s (s.build r).2 more ∧ (s.build r).2.handles = s.handles ∧
      ∀ v ∈ (s.build r).1, inside v ⊆ s.handles := by
  obtain ⟨v, w', hrun, hr, hv⟩ := gives_build r hn.natives
  have hb : s.build r = (v, { s with world := w' }) := by rw [build, hrun]
  rw [hb]
  refine ⟨.of_eq hn rfl rfl rfl hr rfl, handles_eq rfl hr rfl, fun u hu d hd => ?_⟩
  refine mem_handles.2 (.inl ?_)
  exact hv u (Option.mem_toList.2 hu) d hd

/-- A name that is given anew still names one deferred. -/
theorem named_assign (hn : Named s) (name : String) (d : DeferredId) :
    Named (s.assign name d).1 :=
  ⟨Names.nodup_put hn.nodup name d, hn.natives⟩

/-- To assign a name calls for no continuation. -/
theorem idle_assign (s : Deferrals) (name : String) (d : DeferredId) : Idle (s.assign name d).2 :=
  .map fun _ => rfl

/-- Who gets a name is owned, and nobody else gets an owner. -/
theorem mem_handles_assign (s : Deferrals) (name : String) (d : DeferredId) :
    ∀ d' ∈ (s.assign name d).1.handles, d' = d ∨ d' ∈ s.handles := by
  refine forall_mem_handles (fun e he => ?_) (fun _ _ hc _ hd => .inr (mem_handles_of_inside hc hd))
    fun _ hd => .inr (mem_handles_of_held hd)
  obtain he | he := Names.mem_put he
  · exact .inr (mem_handles_of_name he)
  · exact .inl he

/-- The deferred that is assigned has an owner now. -/
theorem assigned_mem_handles (name : String) : d ∈ (s.assign name d).1.handles :=
  mem_handles_of_name (e := (name, d)) (Names.mem_put_self ..)

/-- Whoever loses its name is let go by a task. -/
theorem released_assign (hn : Named s) (name : String) (d : DeferredId) :
    ∀ d' ∈ s.handles, Held (s.assign name d).1 (s.assign name d).2 d' := by
  refine forall_mem_handles (fun e he => ?_) (fun _ _ hc _ hd => .inl (mem_handles_of_inside hc hd))
    fun _ hd => .inl (mem_handles_of_held hd)
  obtain he | he := Names.mem_put_or_find? hn.nodup he name d
  · exact .inl (mem_handles_of_name he)
  · exact .inr (List.mem_map_of_mem (Option.mem_toList.2 he))

/-- To assign a name keeps what is owned, and has the former owner let go. -/
theorem keeps_assign (hn : Named s) (name : String) (hd : d ∈ s.handles) (more : List Task) :
    Keeps s (s.assign name d).1 ((s.assign name d).2 ++ more) where
  cells := rfl
  history := rfl
  attachments := rfl
  named := named_assign hn name d
  handles d' hd' := by
    obtain rfl | hd' := mem_handles_assign s name d d' hd'
    · exact hd
    · exact hd'
  released d' hd' := (released_assign hn name d d' hd').mono (List.subset_append_left ..)

/-- To remove a name has its deferred let go. -/
theorem keeps_remove (hn : Named s) {name : String} (hf : s.find? name = some d)
    (more : List Task) : Keeps s (s.rename (·.remove name)) (.letGo d :: more) where
  cells := rfl
  history := rfl
  attachments := rfl
  named := ⟨Names.nodup_remove hn.nodup name, hn.natives⟩
  handles := forall_mem_handles
    (fun _ he => mem_handles_of_name (List.mem_filter.1 he).1)
    (fun _ _ hc _ hd => mem_handles_of_inside hc hd) fun _ hd => mem_handles_of_held hd
  released := by
    refine forall_mem_handles (fun e he => ?_)
      (fun _ _ hc _ hd => .inl (mem_handles_of_inside hc hd)) fun _ hd => .inl (mem_handles_of_held hd)
    obtain he | he := Names.mem_remove_or_find? hn.nodup he name
    · exact .inl (mem_handles_of_name he)
    · cases hf.symm.trans he
      exact .inr (List.mem_cons_self ..)

/-- A call that ends lets go what it held. -/
theorem keeps_endCall (hn : Named s) (d : DeferredId) :
    Keeps s { s with held := s.held.erase d } [.letGo d] where
  cells := rfl
  history := rfl
  attachments := rfl
  named := ⟨hn.nodup, hn.natives⟩
  handles := forall_mem_handles (fun _ he => mem_handles_of_name he)
    (fun _ _ hc _ hd => mem_handles_of_inside hc hd)
    fun _ hd => mem_handles_of_held (List.mem_of_mem_erase hd)
  released := by
    refine forall_mem_handles (fun _ he => .inl (mem_handles_of_name he))
      (fun _ _ hc _ hd => .inl (mem_handles_of_inside hc hd)) fun d' hd => ?_
    by_cases h : d' = d
    · exact .inr (List.mem_singleton.2 (by rw [h]))
    · exact .inl (mem_handles_of_held ((List.mem_erase_of_ne h).2 hd))

/-! ## Every step -/

/-- A new deferred is pending and has its name. -/
theorem does_create (hn : Named s) (inner : Bool) (name : String) :
    Does s others (.act (.create name) inner) (s.act inner (.create name)).1
      (s.act inner (.create name)).2 := by
  set s₀ : Deferrals := { s with cells := s.cells.insert {} } with hs₀
  have hn₀ : Named s₀ := ⟨hn.nodup, hn.natives⟩
  -- The new deferred holds no other, so the handles are those from before.
  have hhandles (d : DeferredId) : d ∈ s₀.handles ↔ d ∈ s.handles := by
    have hv : s₀.cells.values.flatMap (fun c => inside c.value) =
        s.cells.values.flatMap (fun c => inside c.value) := by
      simp [hs₀, Store.values, Store.insert, inside, NativeValue.refs]
    rw [handles, hv, handles]
  have hcells : (s₀.assign name ⟨s.cells.next⟩).1.cells = s.cells.insert {} := rfl
  refine .create hcells rfl rfl
    (named_assign hn₀ _ _) (assigned_mem_handles name)
    (fun d hd => (mem_handles_assign s₀ name _ d hd).imp id (hhandles d).1) (fun d hd => ?_) rfl ?_
  · exact (released_assign hn₀ name _ d ((hhandles d).2 hd)).mono (List.subset_append_left ..)
  · have hidle : Idle (s₀.assign name ⟨s.cells.next⟩).2 := idle_assign _ _ _
    exact hidle.append (idle_cons rfl idle_nil)

/-- **A completion** is decided on the spot, and calls for the continuation of a deferred that was pending.
-/
theorem does_complete (hn : Named s) (inner : Bool) (name : String) (status : DeferredStatus)
    (r : Recipe) :
    Does s others (.act (.complete name status r) inner) (s.act inner (.complete name status r)).1
      (s.act inner (.complete name status r)).2 := by
  have hidle (result : Option Document) : Idle [.answer result inner] := idle_cons rfl idle_nil
  rw [act]
  cases hf : s.find? name with
  | none => exact .aside (.refl hn) rfl (hidle _)
  | some d =>
    have hd : d ∈ s.handles := mem_handles_of_find? hf
    dsimp only
    generalize hb : s.build r = built
    obtain ⟨v, s₁⟩ := built
    have hkeeps (more : List Task) : Keeps s s₁ more := by
      have := (build_keeps hn r more).1
      rwa [hb] at this
    obtain ⟨-, hhandles, hv⟩ := build_keeps hn r []
    rw [hb] at hhandles hv
    cases v with
    | none => exact .aside (hkeeps _) rfl (hidle _)
    | some v =>
      have hcell : s₁.cell? d = s.cell? d := (hkeeps []).cell? d
      dsimp only
      rw [hcell]
      cases hc : (s.cell? d).bind (·.complete status v) with
      | none => exact .refuse (hkeeps _) hd hc rfl (hidle _)
      | some x =>
        obtain ⟨cell, hcell', hx⟩ := Option.bind_eq_some_iff.1 hc
        rw [Deferred.complete] at hx
        split at hx
        · next hp =>
          cases hx
          exact .complete (hkeeps _) (hhandles ▸ hd) (hhandles ▸ hv v rfl) hcell' hp.1 hp.2 rfl
            (idle_cons rfl (hidle _))
        · cases hx

/-- **A continuation** runs at once on a completed deferred, and else waits in its place. -/
theorem does_attach (hn : Named s) (inner : Bool) (name label : String)
    (body : List DeferralAction) :
    Does s others (.act (.attach name label body) inner) (s.act inner (.attach name label body)).1
      (s.act inner (.attach name label body)).2 := by
  have hidle (result : Option Document) : Idle [.answer result inner] := idle_cons rfl idle_nil
  rw [act]
  cases hf : s.find? name with
  | none => exact .aside (.refl hn) rfl (hidle _)
  | some d =>
    have hd : d ∈ s.handles := mem_handles_of_find? hf
    dsimp only
    cases hc : s.cell? d with
    | none => exact .aside (.refl hn) rfl (hidle _)
    | some cell =>
      let k : Later := { serial := s.attachments, label, body }
      by_cases hp : cell.status = .pending
      · have ha : cell.attach k = ({ cell with continuation := some k },
            .waiting cell.continuation) := by rw [Deferred.attach, hp]
        dsimp only
        rw [ha]
        exact .attach (k := k) hd hc hp rfl hn rfl (idle_cons rfl (hidle _))
      · have ha : cell.attach k = (cell, .ready cell.status cell.value) := by
          rw [Deferred.attach]
          split
          · next h => exact absurd h hp
          · rfl
        have hsame : s.cells.modify d.index (fun _ => cell) = s.cells := Store.modify_self hc
        dsimp only
        rw [ha]
        dsimp only
        rw [hsame]
        exact .late (k := k) hd hc hp rfl hn rfl (idle_cons rfl (hidle _))

/-- Each action of a script is one of these. -/
theorem does_act (hn : Named s) (a : DeferralAction) (inner : Bool) :
    Does s others (.act a inner) (s.act inner a).1 (s.act inner a).2 := by
  have hidle (result : Option Document) : Idle [.answer result inner] := idle_cons rfl idle_nil
  cases a with
  | create name => exact does_create hn inner name
  | complete name status r => exact does_complete hn inner name status r
  | attach name label body => exact does_attach hn inner name label body
  | copy name source =>
    rw [act]
    cases hf : s.find? source with
    | none => exact .aside (.refl hn) rfl (hidle _)
    | some d =>
      exact .aside (keeps_assign hn name (mem_handles_of_find? hf) _) rfl
        ((idle_assign s name d).append (hidle _))
  | drop name =>
    rw [act]
    cases hf : s.find? name with
    | none => exact .aside (.refl hn) rfl (hidle _)
    | some d => exact .aside (keeps_remove hn hf _) rfl (idle_cons rfl (hidle _))
  | state name => exact .aside (.refl hn) rfl (hidle _)
  | same name other => exact .aside (.refl hn) rfl (hidle _)

/-- **To let a deferred go** ends it when nobody else owns it. -/
theorem does_letGo (hn : Named s) (d : DeferredId) :
    Does s others (.letGo d) (s.letGo others d).1 (s.letGo others d).2 := by
  rw [letGo]
  cases hc : s.cell? d with
  | none => exact .stay (.inl hc)
  | some cell =>
    dsimp only
    split
    · next h =>
      refine .stay (.inr ?_)
      obtain h | h := Bool.or_eq_true_iff.1 h
      · obtain ⟨t, ht, hd⟩ := List.any_eq_true.1 h
        split at hd
        · cases of_decide_eq_true hd
          exact .inr ht
        · cases hd
      · exact .inl (List.contains_iff_mem.1 h)
    · next h =>
      refine .gone (fun hd => h ?_) hc hn
      rw [List.contains_iff_mem.2 hd, Bool.or_true]

/-- **Every step does one of the things in the list.** -/
theorem does_step (hn : Named s) (others : List Task) (task : Task) :
    Does s others task (s.step others task).1 (s.step others task).2 := by
  cases task with
  | act a inner => exact does_act hn a inner
  | continueWith k status v =>
    exact .run (.of_eq ⟨hn.nodup, hn.natives⟩ rfl rfl rfl rfl rfl) (.map fun _ => rfl)
  | endCall d => exact .aside (keeps_endCall hn d) rfl (idle_cons rfl idle_nil)
  | letGo d => exact does_letGo hn d
  | answer result inner =>
    cases inner with
    | false => exact .aside (.of_eq hn rfl rfl rfl rfl rfl) rfl idle_nil
    | true =>
      cases result with
      | none => exact .aside (.refl hn) rfl idle_nil
      | some result => exact .aside (.of_eq hn rfl rfl rfl rfl rfl) rfl idle_nil

end Isthmus.Deferrals
