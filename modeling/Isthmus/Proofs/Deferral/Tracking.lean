import Isthmus.Proofs.Deferral.Steps

/-!
# Proofs/Deferral/Tracking — what the steps keep

These hold between the steps of a script, whatever tasks wait:

* `Handled` — the handles are of deferreds that are there, and a deferred that is there has a handle or
  one that is about to go;
* `Faithful` — a deferred has the outcome that the history gives it, and until then the continuation that
  was attached last;
* `Present` — a deferred that was created is there until it goes;
* `Told` — attachments have different numbers, and a completion was accepted if it was the first;
* `Settled` — the continuations that ran and those that wait are those that are due.

Each has a step lemma, over the things that a step can do; `Tracked.step` puts them together.
-/

namespace Isthmus.Deferrals

variable {s s' : Deferrals} {d d' : DeferredId} {task : Task} {tasks more others : List Task}
  {e : DeferralEvent} {h : List DeferralEvent} {cell : Deferred Later}

/-! ## Handles -/

/-- The handles are of deferreds that are there, and what is there is held. -/
structure Handled (s : Deferrals) (tasks : List Task) : Prop where
  named : Named s
  born : ∀ d ∈ s.handles, (s.cell? d).isSome
  held : ∀ d, (s.cell? d).isSome → Held s tasks d

/-- Deferreds are told apart by their number. -/
theorem index_eq_iff : d'.index = d.index ↔ d' = d :=
  ⟨fun h => by cases d; cases d'; exact congrArg _ h, fun h => by rw [h]⟩

/-- A change to one cell, as the others see it. -/
theorem cell?_modify (s : Deferrals) (d d' : DeferredId) (f : Deferred Later → Deferred Later) :
    (s.cells.modify d.index f).get? d'.index =
      if d' = d then (s.cell? d').map f else s.cell? d' := by
  rw [Store.get?_modify]
  simp only [index_eq_iff]
  rfl

/-- A cell that goes is gone, and the others stay. -/
theorem cell?_erase (s : Deferrals) (d d' : DeferredId) :
    (s.cells.erase d.index).get? d'.index = if d' = d then none else s.cell? d' := by
  rw [Store.get?_erase]
  simp only [index_eq_iff]
  rfl

/-- What a task held, unless it lets go of it, is held after the task. -/
theorem Held.next (hd : Held s (task :: others) d) (ht : ∀ d, task ≠ .letGo d)
    (hr : ∀ d ∈ s.handles, Held s' more d) : Held s' (more ++ others) d := by
  obtain hd | hd := hd
  · exact (hr d hd).mono (List.subset_append_left ..)
  · obtain heq | hd := List.mem_cons.1 hd
    · exact absurd heq.symm (ht d)
    · exact .inr (List.mem_append_right _ hd)

/-- The same deferreds are there, and no handle is lost. -/
theorem Handled.next (hs : Handled s (task :: others)) (ht : ∀ d, task ≠ .letGo d) (hn : Named s')
    (hc : ∀ d, (s'.cell? d).isSome = (s.cell? d).isSome) (hh : s'.handles ⊆ s.handles)
    (hr : ∀ d ∈ s.handles, Held s' more d) : Handled s' (more ++ others) where
  named := hn
  born d hd := (hc d).trans (hs.born d (hh hd))
  held d hd := (hs.held d ((hc d).symm.trans hd)).next ht hr

/-- A plain task lets nothing go. -/
theorem Task.ne_letGo (ht : task.isPlain) (d : DeferredId) : task ≠ .letGo d := by
  rintro rfl
  cases ht

/-- A task that keeps what is owned keeps it handled. -/
theorem Handled.keeps (hs : Handled s (task :: others)) (ht : ∀ d, task ≠ .letGo d)
    (hk : Keeps s s' more) : Handled s' (more ++ others) :=
  hs.next ht hk.named (fun d => by rw [hk.cell?]) hk.handles hk.released

/-! ## Outcomes -/

/-- A deferred is as the history says. -/
structure Recorded (h : List DeferralEvent) (d : DeferredId) (cell : Deferred Later) : Prop where
  outcome : outcome? d h = if cell.status = .pending then none else some (cell.status, cell.value)
  latest : cell.status = .pending → cell.continuation = latest? d h
  void : cell.status = .pending → cell.value = .void

/-- What is recorded of a pending deferred is no outcome. -/
theorem Recorded.pending (hr : Recorded h d cell) (hp : cell.status = .pending) :
    outcome? d h = none :=
  hr.outcome.trans (if_pos hp)

/-- What is recorded of a completed one is its outcome. -/
theorem Recorded.complete (hr : Recorded h d cell) (hp : cell.status ≠ .pending) :
    outcome? d h = some (cell.status, cell.value) :=
  hr.outcome.trans (if_neg hp)

/-- What happens to other deferreds does not matter. -/
theorem Recorded.frame (hr : Recorded h d cell) (he : e.subject? ≠ some d) :
    Recorded (e :: h) d cell where
  outcome := (outcome?_frame he).trans hr.outcome
  latest hp := by
    rw [latest?_cons, hr.latest hp]
    rintro k rfl
    exact he rfl
  void := hr.void

/-- The deferreds are as the history says, and of those to come it says nothing. -/
structure Faithful (s : Deferrals) : Prop where
  cells : ∀ {d cell}, s.cell? d = some cell → Recorded s.history d cell
  unborn : ∀ {d}, s.cells.next ≤ d.index → outcome? d s.history = none ∧ latest? d s.history = none

/-- Something happens to a deferred that is there. -/
theorem Faithful.tell (hs : Faithful s) (hn : s'.cells.next = s.cells.next)
    (hh : s'.history = e :: s.history) (hb : ∀ d, e.subject? = some d → (s.cell? d).isSome)
    (hc : ∀ {d cell}, s'.cell? d = some cell →
      e.subject? ≠ some d ∧ s.cell? d = some cell ∨ Recorded (e :: s.history) d cell) :
    Faithful s' where
  cells {d cell} hd := by
    rw [hh]
    obtain ⟨hne, hd⟩ | hr := hc hd
    · exact (hs.cells hd).frame hne
    · exact hr
  unborn {d} hd := by
    rw [hn] at hd
    have hne : e.subject? ≠ some d := fun heq => by
      obtain ⟨cell, hcell⟩ := Option.isSome_iff_exists.1 (hb d heq)
      exact absurd (Store.lt_next_of_get? hcell) (Nat.not_lt.2 hd)
    obtain ⟨ho, hl⟩ := hs.unborn hd
    rw [hh, outcome?_frame hne, latest?_cons, ho, hl]
    · exact ⟨rfl, rfl⟩
    · rintro k rfl
      exact hne rfl

/-- A task that leaves cells and history alone keeps them faithful to each other. -/
theorem Faithful.keeps (hs : Faithful s) (hk : Keeps s s' more) : Faithful s' where
  cells hd := by
    rw [hk.history]
    exact hs.cells ((hk.cell? _).symm.trans hd)
  unborn hd := by
    rw [hk.history]
    exact hs.unborn (hk.cells ▸ hd)

/-- **Every step keeps cells and history faithful**. -/
theorem Faithful.step (hs : Faithful s) (hb : ∀ d ∈ s.handles, (s.cell? d).isSome)
    (hd : Does s others task s' more) : Faithful s' := by
  cases hd with
  | aside hk => exact hs.keeps hk
  | stay => exact hs
  | create hc hh =>
    refine ⟨fun {d cell} hd => ?_, fun {d} hd => ?_⟩
    · rw [cell?, hc, Store.get?_insert] at hd
      rw [hh]
      split at hd
      · next heq =>
        cases hd
        obtain ⟨ho, hl⟩ := hs.unborn (Nat.le_of_eq heq.symm)
        exact ⟨ho, fun _ => hl.symm, fun _ => rfl⟩
      · exact hs.cells hd
    · rw [hc] at hd
      rw [hh]
      exact hs.unborn (Nat.le_of_succ_le hd)
  | @refuse _ s₁ d status v _ hk hd hc =>
    refine hs.tell (congrArg Store.next hk.cells) (congrArg _ hk.history)
      (fun d' heq => Option.some.inj heq ▸ hb d hd) fun {d' cell} hd' => ?_
    have hcell : s.cell? d' = some cell := (hk.cell? d').symm.trans hd'
    by_cases heq : d' = d
    · subst heq
      have hr := hs.cells hcell
      refine .inr ⟨?_, hr.latest, hr.void⟩
      by_cases hp : cell.status = .pending
      · -- A completion that is none is refused, and leaves the deferred pending.
        have hst : status = .pending := by
          rw [hcell, Option.bind_some, Deferred.complete, ite_eq_right_iff] at hc
          by_contra hst
          cases hc ⟨hp, hst⟩
        rw [outcome?_cons, hr.outcome]
        exact if_pos hst
      · rw [outcome?, hr.complete hp, Option.some_or, if_neg hp]
    · exact .inl ⟨fun h => heq (Option.some.inj h).symm, hcell⟩
  | @complete _ s₁ d cell status v _ hk hd hv hcell hp hst =>
    have hnext : s₁.cells.next = s.cells.next := congrArg Store.next hk.cells
    refine hs.tell hnext (congrArg _ hk.history)
      (fun d' heq => Option.some.inj heq ▸ hb d (hk.handles hd)) fun {d' cell'} hd' => ?_
    have hm := (cell?_modify s₁ d d' _).symm.trans hd'
    split at hm
    · next heq =>
      subst heq
      obtain ⟨_, -, rfl⟩ := Option.map_eq_some_iff.1 hm
      refine .inr ⟨?_, fun hp' => absurd hp' hst, fun hp' => absurd hp' hst⟩
      rw [if_neg hst, outcome?_cons_of_none ((hs.cells hcell).pending hp)]
      exact if_neg hst
    · next heq =>
      exact .inl ⟨fun h => heq (Option.some.inj h).symm, (hk.cell? d').symm.trans hm⟩
  | @attach _ d cell k _ hd hcell hp =>
    refine hs.tell rfl rfl (fun d' heq => Option.some.inj heq ▸ hb d hd) fun {d' cell'} hd' => ?_
    have hm := (cell?_modify s d d' _).symm.trans hd'
    split at hm
    · next heq =>
      subst heq
      obtain ⟨_, -, rfl⟩ := Option.map_eq_some_iff.1 hm
      have hr := hs.cells hcell
      exact .inr ⟨(outcome?_cons rfl).trans hr.outcome, fun _ => (if_pos rfl).symm, hr.void⟩
    · next heq => exact .inl ⟨fun h => heq (Option.some.inj h).symm, hm⟩
  | @late _ d cell k _ hd hcell hp =>
    refine hs.tell rfl rfl (fun d' heq => Option.some.inj heq ▸ hb d hd) fun {d' cell'} hd' => ?_
    have hm : s.cell? d' = some cell' := hd'
    by_cases heq : d' = d
    · subst heq
      cases hcell.symm.trans hm
      exact .inr ⟨(outcome?_cons rfl).trans (hs.cells hm).outcome, fun hp' => absurd hp' hp,
        (hs.cells hm).void⟩
    · exact .inl ⟨fun h => heq (Option.some.inj h).symm, hm⟩
  | @run k status v _ _ hk =>
    have hno (d : DeferredId) : (DeferralEvent.ran k status v).subject? ≠ some d := by
      rintro ⟨⟩
    have hran : Faithful (s.tell (.ran k status v)) :=
      hs.tell rfl rfl (fun d heq => absurd heq (hno d)) fun hd' => .inl ⟨hno _, hd'⟩
    exact hran.keeps hk
  | @gone d cell hd hcell =>
    refine hs.tell rfl rfl (fun d' heq => Option.some.inj heq ▸ by rw [hcell]; rfl)
      fun {d' cell'} hd' => ?_
    have hm := (cell?_erase s d d').symm.trans hd'
    split at hm
    · cases hm
    · next heq => exact .inl ⟨fun h => heq (Option.some.inj h).symm, hm⟩

/-! ## Handles, step by step -/

/-- Who holds more owns no less. -/
theorem handles_subset_hold (s : Deferrals) (d : DeferredId) :
    s.handles ⊆ ({ s with held := d :: s.held } : Deferrals).handles :=
  forall_mem_handles (fun _ he => mem_handles_of_name he)
    (fun _ _ hc _ hd => mem_handles_of_inside hc hd)
    fun _ hd => mem_handles_of_held (List.mem_cons_of_mem _ hd)

/-- More tasks handle no less. -/
theorem Handled.mono (hs : Handled s tasks) (ht : tasks ⊆ more) : Handled s more :=
  ⟨hs.named, hs.born, fun d hd => (hs.held d hd).mono ht⟩

/-- A running call holds a deferred. -/
theorem Handled.hold (hs : Handled s tasks) (hd : d ∈ s.handles) :
    Handled { s with held := d :: s.held } tasks := by
  refine ⟨⟨hs.named.1, hs.named.2⟩, fun d' hd' => hs.born d' ?_, fun d' hd' => ?_⟩
  · revert d'
    refine forall_mem_handles (fun e he => mem_handles_of_name he)
      (fun _ _ hc _ hd' => mem_handles_of_inside hc hd') fun d' hd' => ?_
    obtain rfl | hd' := List.mem_cons.1 hd'
    · exact hd
    · exact mem_handles_of_held hd'
  · exact (hs.held d' hd').imp (fun h => handles_subset_hold s d h) id

/-- A deferred changes, and the handles in its old value are none, or those in its new one. -/
theorem Handled.change (hs : Handled s tasks) (hc : s.cell? d = some cell)
    (new : Deferred Later) (hnew : inside new.value ⊆ s.handles)
    (hold : inside cell.value ⊆ inside new.value) :
    Handled { s with cells := s.cells.modify d.index fun _ => new } tasks := by
  have hcell (d' : DeferredId) := cell?_modify s d d' fun _ => new
  have hsome (d' : DeferredId) :=
    Store.isSome_get?_modify s.cells d.index d'.index fun _ => new
  refine ⟨⟨hs.named.1, hs.named.2⟩, fun d' hd' => (hsome d').trans (hs.born d' ?_), fun d' hd' => ?_⟩
  · revert d'
    refine forall_mem_handles (fun e he => mem_handles_of_name he) (fun d'' cell'' hc'' d' hd' => ?_)
      fun d' hd' => mem_handles_of_held hd'
    have hm := (hcell d'').symm.trans hc''
    split at hm
    · obtain ⟨_, -, rfl⟩ := Option.map_eq_some_iff.1 hm
      exact hnew hd'
    · exact mem_handles_of_inside hm hd'
  · refine (hs.held d' ((hsome d').symm.trans hd')).imp (fun h => ?_) id
    revert d'
    suffices hall : ∀ d' ∈ s.handles,
        d' ∈ ({ s with cells := s.cells.modify d.index fun _ => new } : Deferrals).handles from
      fun d' _ => hall d'
    refine forall_mem_handles (fun e he => mem_handles_of_name he) (fun d'' cell'' hc'' d' hd' => ?_)
      fun d' hd' => mem_handles_of_held hd'
    by_cases heq : d'' = d
    · subst heq
      cases hc.symm.trans hc''
      exact mem_handles_of_inside ((hcell d'').trans ((if_pos rfl).trans (congrArg _ hc))) (hold hd')
    · exact mem_handles_of_inside ((hcell d'').trans ((if_neg heq).trans hc'')) hd'

/-- A deferred without handles goes, and the handles in its value are let go. -/
theorem Handled.erase (hs : Handled s (.letGo d :: others)) (hd : d ∉ s.handles)
    (hc : s.cell? d = some cell) (hm : (inside cell.value).map .letGo ⊆ more) :
    Handled { s with cells := s.cells.erase d.index } (more ++ others) := by
  have hcell (d' : DeferredId) := cell?_erase s d d'
  have hother {d' : DeferredId} (h : d' ≠ d) := (hcell d').trans (if_neg h)
  refine ⟨⟨hs.named.1, hs.named.2⟩, fun d' hd' => ?_, fun d' hd' => ?_⟩
  · have hmem : d' ∈ s.handles := by
      revert d'
      refine forall_mem_handles (fun e he => mem_handles_of_name he)
        (fun d'' cell'' hc'' d' hd' => ?_) fun d' hd' => mem_handles_of_held hd'
      have hm := (hcell d'').symm.trans hc''
      split at hm
      · cases hm
      · exact mem_handles_of_inside hm hd'
    exact (congrArg _ (hother fun heq => hd (heq ▸ hmem))).trans (hs.born d' hmem)
  · have hne : d' ≠ d := fun heq => by
      have hnone := (hcell d').trans (if_pos heq)
      exact Bool.false_ne_true ((congrArg Option.isSome hnone).symm.trans hd')
    obtain h | h := hs.held d' ((congrArg Option.isSome (hother hne)).symm.trans hd')
    · revert d'
      suffices hall : ∀ d' ∈ s.handles,
          Held { s with cells := s.cells.erase d.index } (more ++ others) d' from
        fun d' _ _ => hall d'
      refine forall_mem_handles (fun e he => .inl (mem_handles_of_name he))
        (fun d'' cell'' hc'' d' hd' => ?_) fun d' hd' => .inl (mem_handles_of_held hd')
      by_cases heq : d'' = d
      · subst heq
        cases hc.symm.trans hc''
        exact .inr (List.mem_append_left _ (hm (List.mem_map_of_mem hd')))
      · exact .inl (mem_handles_of_inside ((hother heq).trans hc'') hd')
    · obtain heq | h := List.mem_cons.1 h
      · cases heq
        exact absurd rfl hne
      · exact .inr (List.mem_append_right _ h)

/-- What happened, and how many continuations were attached, does not matter. -/
theorem Handled.same (hs : Handled s tasks) (hc : s'.cells = s.cells) (hw : s'.world = s.world)
    (hd : s'.held = s.held) : Handled s' tasks := by
  obtain ⟨cells, world, held, attachments, history, answer, log⟩ := s'
  cases hc
  cases hw
  cases hd
  exact ⟨⟨hs.named.1, hs.named.2⟩, hs.born, hs.held⟩

/-- **Every step keeps everything owned or about to be let go**. -/
theorem Handled.step (hs : Handled s (task :: others)) (hf : Faithful s)
    (hd : Does s others task s' more) : Handled s' (more ++ others) := by
  cases hd with
  | aside hk ht => exact hs.keeps (Task.ne_letGo ht) hk
  | @run k status v _ _ hk =>
    have hran : Handled (s.tell (.ran k status v)) (_ :: others) := hs.same rfl rfl rfl
    exact hran.keeps nofun hk
  | refuse hk _ _ ht => exact (hs.keeps (Task.ne_letGo ht) hk).same rfl rfl rfl
  | stay hd =>
    refine ⟨hs.named, hs.born, fun d' hd' => ?_⟩
    obtain h | h := hs.held d' hd'
    · exact .inl h
    · obtain heq | h := List.mem_cons.1 h
      · cases heq
        obtain hnone | hheld := hd
        · rw [hnone] at hd'
          cases hd'
        · exact hheld
      · exact .inr h
  | create hc hh _ hn hnew hsub hr ht =>
    have hcell (d : DeferredId) : s'.cell? d = if d.index = s.cells.next then some {}
        else s.cell? d := by rw [cell?, hc, Store.get?_insert, cell?]
    refine ⟨hn, fun d hd => ?_, fun d hd => ?_⟩
    · rw [hcell]
      split
      · rfl
      · next hne =>
        obtain rfl | hd := hsub d hd
        · exact absurd rfl hne
        · exact hs.born d hd
    · rw [hcell] at hd
      split at hd
      · next heq => exact .inl (index_eq_iff (d := ⟨s.cells.next⟩).1 heq ▸ hnew)
      · exact (hs.held d hd).next (Task.ne_letGo ht) hr
  | @complete _ s₁ d cell status v _ hk hd hv hcell hp _ ht =>
    have hheld := (hs.keeps (Task.ne_letGo ht) hk).hold hd
    have hold : inside cell.value ⊆ inside v := by
      rw [(hf.cells hcell).void hp]
      exact List.nil_subset _
    have hdone := hheld.change ((hk.cell? d).trans hcell) { status, value := v }
      (fun _ hv' => handles_subset_hold s₁ d (hv hv')) hold
    refine (hdone.mono ?_).same rfl rfl rfl
    rw [List.append_assoc]
    exact List.subset_append_right ..
  | @attach _ d cell k _ hd hcell _ _ hn ht =>
    have hk : Keeps s s more := .refl hn
    have hheld := (hs.keeps (Task.ne_letGo ht) hk).hold hd
    have hdone := hheld.change hcell { cell with continuation := some k }
    refine (hdone ?_ (List.Subset.refl _)).same rfl rfl rfl
    exact fun _ hv => handles_subset_hold s _ (mem_handles_of_inside hcell hv)
  | late hd _ _ _ hn ht => exact ((hs.keeps (Task.ne_letGo ht) (.refl hn)).hold hd).same rfl rfl rfl
  | gone hd hcell =>
    exact (hs.erase hd hcell (List.subset_append_right ..)).same rfl rfl rfl

/-! ## What is there -/

/-- The deferreds that are there are those that were created and are not gone. -/
def Present (s : Deferrals) : Prop :=
  ∀ d, (s.cell? d).isSome ↔ d.index < s.cells.next ∧ .gone d ∉ s.history

/-- Who ends no cell keeps it that what is not gone is there. -/
theorem Present.same (hs : Present s) (hc : ∀ d, (s'.cell? d).isSome = (s.cell? d).isSome)
    (hn : s'.cells.next = s.cells.next) (hh : ∀ d, .gone d ∈ s'.history ↔ .gone d ∈ s.history) :
    Present s' := by
  intro d
  rw [hc, hs d, hn, hh]

/-- An event that is no end ends nothing. -/
theorem gone_mem_cons (he : ∀ d, e ≠ .gone d) : .gone d ∈ e :: h ↔ .gone d ∈ h := by
  rw [List.mem_cons, or_iff_right fun heq => he d heq.symm]

/-- **Every step keeps it that what is not gone is there**. -/
theorem Present.step (hs : Present s) (hf : Faithful s) (hd : Does s others task s' more) :
    Present s' := by
  cases hd with
  | stay => exact hs
  | aside hk =>
    exact hs.same (fun d => by rw [hk.cell?]) (by rw [hk.cells]) fun d => by rw [hk.history]
  | create hc hh =>
    intro d
    have hcell : s'.cell? d = if d.index = s.cells.next then some {} else s.cell? d := by
      rw [cell?, hc, Store.get?_insert, cell?]
    have hnext : s'.cells.next = s.cells.next + 1 := by rw [hc, Store.insert]
    rw [hcell, hnext, hh]
    split
    · next heq =>
      refine iff_of_true rfl ⟨heq ▸ Nat.lt_succ_self _, fun hg => ?_⟩
      have ho := outcome?_of_gone hg
      rw [(hf.unborn (Nat.le_of_eq heq.symm)).1] at ho
      cases ho
    · next hne =>
      rw [hs d]
      exact and_congr_left fun _ => ⟨Nat.lt_succ_of_lt, fun h => by omega⟩
  | refuse hk =>
    refine hs.same (fun d => congrArg Option.isSome (hk.cell? d)) (congrArg Store.next hk.cells)
      fun d => ?_
    rw [← hk.history]
    exact gone_mem_cons (by rintro _ ⟨⟩)
  | @complete _ s₁ d cell status v _ hk =>
    have hnext : s₁.cells.next = s.cells.next := congrArg Store.next hk.cells
    refine hs.same (fun d' => ?_) hnext fun d => ?_
    · rw [← hk.cell? d']
      exact Store.isSome_get?_modify ..
    · rw [← hk.history]
      exact gone_mem_cons (by rintro _ ⟨⟩)
  | attach =>
    exact hs.same (fun d' => Store.isSome_get?_modify ..) rfl fun d =>
      gone_mem_cons (by rintro _ ⟨⟩)
  | late => exact hs.same (fun _ => rfl) rfl fun d => gone_mem_cons (by rintro _ ⟨⟩)
  | run hk =>
    refine hs.same (fun d => by rw [hk.cell?]; rfl) (by rw [hk.cells]; rfl) fun d => ?_
    rw [hk.history]
    exact gone_mem_cons (by rintro _ ⟨⟩)
  | @gone d cell hd hcell =>
    intro d'
    have hget := cell?_erase s d d'
    change ((s.cells.erase d.index).get? d'.index).isSome ↔
      d'.index < s.cells.next ∧ .gone d' ∉ .gone d :: s.history
    rw [hget, List.mem_cons, not_or]
    split
    · next heq => exact iff_of_false Bool.false_ne_true fun h => h.2.1 (by rw [heq])
    · next hne =>
      rw [hs d']
      refine and_congr_right fun _ => (and_iff_right ?_).symm
      exact fun h => hne (DeferralEvent.gone.inj h)

/-! ## Attachments and completions -/

/-- The history numbers attachments, and says of a completion whether it was the first. -/
structure Told (s : Deferrals) : Prop where
  nodup : (serials s.history).Nodup
  below : ∀ n ∈ serials s.history, n < s.attachments
  answered : ∀ {newer d status v answer older},
    s.history = newer ++ .tried d status v answer :: older →
      (answer = true ↔ status ≠ .pending ∧ outcome? d older = none)

/-- What tells of nothing new is told as before. -/
theorem Told.same (hs : Told s) (hh : s'.history = s.history) (ha : s'.attachments = s.attachments) :
    Told s' where
  nodup := hh ▸ hs.nodup
  below := by
    rw [hh, ha]
    exact hs.below
  answered hnew := hs.answered (hh.symm.trans hnew)

/-- Something happens that is no attachment. -/
theorem Told.tell (hs : Told s) (hh : s'.history = e :: s.history)
    (ha : s'.attachments = s.attachments) (hserials : serials (e :: s.history) = serials s.history)
    (he : ∀ {d status v answer}, e = .tried d status v answer →
      (answer = true ↔ status ≠ .pending ∧ outcome? d s.history = none)) : Told s' where
  nodup := by
    rw [hh, hserials]
    exact hs.nodup
  below := by
    rw [hh, hserials, ha]
    exact hs.below
  answered {newer} _ _ _ _ _ hnew := by
    rw [hh] at hnew
    cases newer with
    | nil =>
      cases hnew
      exact he rfl
    | cons e' newer => exact hs.answered (List.cons.inj hnew).2

/-- An attachment is told once, under the next number. -/
theorem Told.attach {k : Later} (hs : Told s) (hh : s'.history = .attached d k :: s.history)
    (ha : s'.attachments = s.attachments + 1) (hk : k.serial = s.attachments) : Told s' where
  nodup := by
    rw [hh, serials, List.nodup_cons]
    exact ⟨fun hm => Nat.lt_irrefl _ (hk ▸ hs.below _ hm), hs.nodup⟩
  below n hn := by
    rw [ha]
    rw [hh, serials] at hn
    obtain rfl | hn := List.mem_cons.1 hn
    · exact hk ▸ Nat.lt_succ_self _
    · exact Nat.lt_succ_of_lt (hs.below n hn)
  answered {newer} _ _ _ _ _ hnew := by
    rw [hh] at hnew
    cases newer with
    | nil => cases hnew
    | cons e' newer => exact hs.answered (List.cons.inj hnew).2

/-- **Every step is told once**. -/
theorem Told.step (hs : Told s) (hf : Faithful s) (hb : ∀ d ∈ s.handles, (s.cell? d).isSome)
    (hd : Does s others task s' more) : Told s' := by
  cases hd with
  | aside hk => exact hs.same hk.history hk.attachments
  | stay => exact hs
  | create _ hh ha => exact hs.same hh ha
  | @refuse _ s₁ d status v _ hk hd hc =>
    refine hs.tell (congrArg _ hk.history) hk.attachments rfl ?_
    rintro _ _ _ _ ⟨⟩
    refine iff_of_false Bool.false_ne_true fun ⟨hst, ho⟩ => ?_
    obtain ⟨cell, hcell⟩ := Option.isSome_iff_exists.1 (hb d hd)
    have hp : cell.status = .pending := by
      by_contra hp
      cases ((hf.cells hcell).complete hp).symm.trans ho
    rw [hcell, Option.bind_some, Deferred.complete, if_pos ⟨hp, hst⟩] at hc
    cases hc
  | complete hk _ _ hcell hp hst =>
    refine hs.tell (congrArg _ hk.history) hk.attachments rfl ?_
    rintro _ _ _ _ ⟨⟩
    exact iff_of_true rfl ⟨hst, (hf.cells hcell).pending hp⟩
  | attach _ _ _ hk => exact hs.attach rfl rfl hk
  | late _ _ _ hk => exact hs.attach rfl rfl hk
  | @run k status v _ _ hk =>
    have hran : Told (s.tell (.ran k status v)) := hs.tell rfl rfl rfl (by rintro _ _ _ _ ⟨⟩)
    exact hran.same hk.history hk.attachments
  | gone => exact hs.tell rfl rfl rfl (by rintro _ _ _ _ ⟨⟩)

/-! ## Continuations -/

/-- The continuations that ran and those that wait are those that are due. -/
def Settled (s : Deferrals) (tasks : List Task) : Prop :=
  (begun s.history ++ waiting tasks).Perm (due s.history)

/-- The task begins no continuation itself. -/
theorem waiting_cons_of_idle (ht : task.continues? = none) :
    waiting (task :: others) = waiting others :=
  List.filterMap_cons_none ht

/-- A task that attaches and ends nothing leaves it settled which continuations wait. -/
theorem Settled.same (hs : Settled s (task :: others)) (ht : task.continues? = none)
    (hh : s'.history = s.history) (hm : Idle more) : Settled s' (more ++ others) := by
  rw [Settled, waiting_cons_of_idle ht] at hs
  rw [Settled, hh, waiting_append, hm.waiting]
  exact hs

/-- The tasks that come up begin the continuation that an event calls for. -/
theorem Settled.call (hs : Settled s (task :: others)) (ht : task.continues? = none)
    (hh : s'.history = e :: s.history) (hb : begun (e :: s.history) = begun s.history)
    (hw : waiting more = (brings s.history e).toList) : Settled s' (more ++ others) := by
  rw [Settled, waiting_cons_of_idle ht] at hs
  rw [Settled, hh, hb, waiting_append, hw, due]
  exact List.perm_append_comm_assoc _ _ _ |>.trans (hs.append_left _)

/-- A continuation that is called waits for its turn, with status and value. -/
theorem waiting_call (k : Option Later) (status : DeferredStatus) (v : NativeValue)
    (hm : Idle more) :
    waiting (k.toList.map (.continueWith · status v) ++ more) =
      (k.map (·, status, v)).toList := by
  rw [waiting_append, hm.waiting, List.append_nil]
  cases k with
  | none => rfl
  | some k => rfl

/-- The end of a pending deferred calls for the continuation that waits. -/
theorem brings_of_pending {o : DeferralOutcome} (hr : Recorded h d cell)
    (hp : cell.status = .pending) (he : e.ends? = some (d, o)) :
    brings h e = cell.continuation.map (·, o) := by
  rw [hr.latest hp]
  ext ⟨k, o'⟩
  rw [brings_eq_some, Option.map_eq_some_iff]
  constructor
  · rintro (⟨d', rfl, -⟩ | ⟨d', he', -, hk⟩)
    · cases he
    · cases he.symm.trans he'
      exact ⟨k, hk, rfl⟩
  · rintro ⟨k', hk, heq⟩
    cases heq
    exact .inr ⟨d, he, hr.pending hp, hk⟩

/-- The end of a complete deferred calls for nothing. -/
theorem brings_of_complete {o : DeferralOutcome} (hr : Recorded h d cell)
    (hp : cell.status ≠ .pending) (he : e.ends? = some (d, o)) : brings h e = none := by
  refine Option.eq_none_iff_forall_ne_some.2 fun ⟨k, o'⟩ hk => ?_
  obtain ⟨d', rfl, -⟩ | ⟨d', he', ho, -⟩ := brings_eq_some.1 hk
  · cases he
  · cases he.symm.trans he'
    cases (hr.complete hp).symm.trans ho

/-- A completion that was tried ends a pending deferred. -/
theorem ends?_tried (d : DeferredId) {status : DeferredStatus} (v : NativeValue) (answer : Bool)
    (hst : status ≠ .pending) :
    (DeferralEvent.tried d status v answer).ends? = some (d, status, v) :=
  if_neg hst

/-- **Every step runs, or has wait, each continuation that was attached**. -/
theorem Settled.step (hs : Settled s (task :: others)) (hf : Faithful s)
    (hb : ∀ d ∈ s.handles, (s.cell? d).isSome) (hd : Does s others task s' more) :
    Settled s' (more ++ others) := by
  cases hd with
  | aside hk ht hm => exact hs.same (Task.continues?_of_isPlain ht) hk.history hm
  | stay => exact hs.same rfl rfl idle_nil
  | create _ hh _ _ _ _ _ ht hm => exact hs.same (Task.continues?_of_isPlain ht) hh hm
  | @refuse _ s₁ d status v _ hk hd hc ht hm =>
    refine hs.call (Task.continues?_of_isPlain ht) (congrArg _ hk.history) rfl ?_
    obtain ⟨cell, hcell⟩ := Option.isSome_iff_exists.1 (hb d hd)
    rw [hm.waiting]
    by_cases hst : status = .pending
    · subst hst
      rfl
    · have hp : cell.status ≠ .pending := fun hp => by
        rw [hcell, Option.bind_some, Deferred.complete, if_pos ⟨hp, hst⟩] at hc
        cases hc
      rw [brings_of_complete (hf.cells hcell) hp (ends?_tried d v false hst)]
      rfl
  | @complete _ s₁ d cell status v _ hk _ _ hcell hp hst ht hm =>
    refine hs.call (Task.continues?_of_isPlain ht) (congrArg _ hk.history) rfl ?_
    rw [waiting_call _ _ _ hm, brings_of_pending (hf.cells hcell) hp (ends?_tried d v true hst)]
  | attach _ hcell hp _ _ ht hm =>
    refine hs.call (Task.continues?_of_isPlain ht) rfl rfl ?_
    rw [hm.waiting, brings, (hf.cells hcell).pending hp]
    rfl
  | @late _ d cell k more _ hcell hp _ _ ht hm =>
    refine hs.call (Task.continues?_of_isPlain ht) rfl rfl ?_
    rw [brings, (hf.cells hcell).complete hp]
    exact waiting_call (some k) cell.status cell.value hm
  | @run k status v _ _ hk hm =>
    have hh : s'.history = .ran k status v :: s.history := hk.history
    have hdue : due (.ran k status v :: s.history) = due s.history := rfl
    rw [Settled, hh, begun, hdue, waiting_append, hm.waiting, List.nil_append, List.cons_append]
    exact List.perm_middle.symm.trans hs
  | @gone d cell hd hcell hn =>
    refine hs.call rfl rfl rfl ?_
    rw [waiting_call _ _ _ (.map fun _ => rfl)]
    by_cases hp : cell.status = .pending
    · rw [Deferred.abandoned_of_pending hp, brings_of_pending (hf.cells hcell) hp rfl]
    · have ha : cell.abandoned = none :=
        Option.eq_none_iff_forall_ne_some.2 fun k hk => hp (Deferred.pending_of_abandoned hk)
      rw [ha, brings_of_complete (hf.cells hcell) hp rfl]
      rfl

/-! ## All of it -/

/-- **What holds between steps**, whatever tasks wait. -/
structure Tracked (s : Deferrals) (tasks : List Task) : Prop where
  handled : Handled s tasks
  faithful : Faithful s
  present : Present s
  told : Told s
  settled : Settled s tasks

/-- **Every step keeps all of it**. -/
theorem Tracked.step (hs : Tracked s (task :: others)) :
    Tracked (s.step others task).1 ((s.step others task).2 ++ others) := by
  have hd := does_step hs.handled.named others task
  exact ⟨hs.handled.step hs.faithful hd, hs.faithful.step hs.handled.born hd,
    hs.present.step hs.faithful hd,
    hs.told.step hs.faithful hs.handled.born hd, hs.settled.step hs.faithful hs.handled.born hd⟩

/-- A thread sets out to do an action. -/
theorem Tracked.start (hs : Tracked s tasks) (a : DeferralAction) (inner : Bool) :
    Tracked { s with answer := none, log := [] } (.act a inner :: tasks) where
  handled := Handled.same (hs.handled.mono (List.subset_cons_self ..)) rfl rfl rfl
  faithful := ⟨hs.faithful.cells, hs.faithful.unborn⟩
  present := hs.present
  told := hs.told.same rfl rfl
  settled := hs.settled

/-- The order of tasks has no bearing on it. -/
theorem Tracked.perm (hs : Tracked s tasks) (hp : tasks.Perm more) : Tracked s more where
  handled := hs.handled.mono hp.subset
  faithful := hs.faithful
  present := hs.present
  told := hs.told
  settled := ((hp.filterMap _).symm.append_left _).trans hs.settled

end Isthmus.Deferrals
