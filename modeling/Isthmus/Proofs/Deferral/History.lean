import Isthmus.Deferral.Basic
import Mathlib.Data.List.Nodup

/-!
# Proofs/Deferral/History — what the history of deferreds calls for

The history lists what happened to deferreds, newest first.  It settles which continuations have to run:

* `outcome?` — the outcome of a deferred: its first completion, or the going of its last handle.
* `Called` — a continuation has to run with an outcome, which its deferred had when it was attached, or
  got while no other was attached after it.
* `due` — all continuations that have to run, each once (`nodup_due`); it lists those that are called for
  (`mem_due`).
-/

namespace Isthmus

/-- How a deferred ended. -/
abbrev DeferralOutcome := DeferredStatus × NativeValue

namespace DeferralEvent

/-- The deferred that an event completes or ends, unless it has an outcome, and the outcome. -/
def ends? : DeferralEvent → Option (DeferredId × DeferralOutcome)
  | .tried d status v _ => if status = .pending then none else some (d, status, v)
  | .gone d => some (d, .rejected, Deferred.droppedReason)
  | _ => none

/-- The deferred that an event happens to. -/
def subject? : DeferralEvent → Option DeferredId
  | .attached d _ | .tried d .. | .gone d => some d
  | .ran .. => none

theorem subject?_of_ends? {e : DeferralEvent} {d : DeferredId} {o : DeferralOutcome}
    (h : e.ends? = some (d, o)) : e.subject? = some d := by
  cases e with
  | attached | ran => cases h
  | tried d' status v answer =>
    rw [ends?] at h
    split at h
    · cases h
    · cases h
      rfl
  | gone d' =>
    cases h
    rfl

end DeferralEvent

namespace Deferrals

/-! ## Outcomes and continuations -/

/-- The outcome of a deferred: the first that an event gave it. -/
def outcome? (d : DeferredId) : List DeferralEvent → Option DeferralOutcome
  | [] => none
  | e :: older => (outcome? d older).or ((e.ends?.filter (·.1 = d)).map (·.2))

/-- The continuation that was attached to a deferred last. -/
def latest? (d : DeferredId) : List DeferralEvent → Option Later
  | [] => none
  | .attached d' k :: older => if d' = d then some k else latest? d older
  | _ :: older => latest? d older

/-- The numbers of the continuations that were attached, newest first. -/
def serials : List DeferralEvent → List Nat
  | [] => []
  | .attached _ k :: older => k.serial :: serials older
  | _ :: older => serials older

/-- **A continuation is called for**, with an outcome: its deferred had it already, or got it while the
continuation was the last one attached. -/
inductive Called (h : List DeferralEvent) (k : Later) (o : DeferralOutcome) : Prop where
  | late {d newer older} (hh : h = newer ++ .attached d k :: older) (ho : outcome? d older = some o)
  | waiting {d newer e between older} (hh : h = newer ++ e :: (between ++ .attached d k :: older))
      (he : e.ends? = some (d, o)) (ho : outcome? d (between ++ .attached d k :: older) = none)
      (hl : ∀ k', .attached d k' ∉ between)

/-- The continuation that an event calls for, with its outcome. -/
def brings (older : List DeferralEvent) : DeferralEvent → Option (Later × DeferralOutcome)
  | .attached d k => (outcome? d older).map (k, ·)
  | e =>
    match e.ends? with
    | none => none
    | some (d, o) => if (outcome? d older).isNone then (latest? d older).map (·, o) else none

/-- The continuations that have to run, with their outcomes. -/
def due : List DeferralEvent → List (Later × DeferralOutcome)
  | [] => []
  | e :: older => (brings older e).toList ++ due older

/-- The continuations that began to run, with the outcomes that they ran with. -/
def begun : List DeferralEvent → List (Later × DeferralOutcome)
  | [] => []
  | .ran k status v :: older => (k, status, v) :: begun older
  | _ :: older => begun older

section

variable {d : DeferredId} {k : Later} {o : DeferralOutcome} {e : DeferralEvent}
  {h older : List DeferralEvent}

theorem mem_begun : (k, o) ∈ begun h ↔ .ran k o.1 o.2 ∈ h := by
  induction h with
  | nil => exact iff_of_false List.not_mem_nil List.not_mem_nil
  | cons e h ih =>
    cases e with
    | ran k' status v =>
      obtain ⟨status', v'⟩ := o
      simp only [begun, List.mem_cons, ih, Prod.mk.injEq, DeferralEvent.ran.injEq]
    | _ => simpa only [begun, List.mem_cons, reduceCtorEq, false_or] using ih

theorem mem_serials {n : Nat} :
    n ∈ serials h ↔ ∃ d k, .attached d k ∈ h ∧ k.serial = n := by
  induction h with
  | nil => simp [serials]
  | cons e h ih =>
    cases e with
    | attached d' k' =>
      simp only [serials, List.mem_cons, ih, DeferralEvent.attached.injEq]
      constructor
      · rintro (rfl | ⟨d, k, hd, hk⟩)
        · exact ⟨d', k', .inl ⟨rfl, rfl⟩, rfl⟩
        · exact ⟨d, k, .inr hd, hk⟩
      · rintro ⟨d, k, ⟨-, rfl⟩ | hd, rfl⟩
        · exact .inl rfl
        · exact .inr ⟨d, k, hd, rfl⟩
    | _ => simpa only [serials, List.mem_cons, reduceCtorEq, false_or] using ih

/-- An outcome, once there is one, stays. -/
theorem outcome?_append (newer : List DeferralEvent) (h : outcome? d older = some o) :
    outcome? d (newer ++ older) = some o := by
  induction newer with
  | nil => exact h
  | cons e newer ih => rw [List.cons_append, outcome?, ih, Option.some_or]

/-- A deferred whose handles are gone has an outcome. -/
theorem outcome?_of_gone (hg : .gone d ∈ h) : (outcome? d h).isSome := by
  obtain ⟨newer, older, rfl⟩ := List.append_of_mem hg
  obtain ⟨o, ho⟩ : ∃ o, outcome? d (.gone d :: older) = some o := by
    cases hold : outcome? d older with
    | some o => exact ⟨o, by rw [outcome?, hold, Option.some_or]⟩
    | none =>
      refine ⟨(.rejected, Deferred.droppedReason), ?_⟩
      simp [outcome?, hold, DeferralEvent.ends?]
  rw [outcome?_append newer ho]
  rfl

theorem outcome?_cons_of_none (h : outcome? d older = none) :
    outcome? d (e :: older) = some o ↔ e.ends? = some (d, o) := by
  rw [outcome?, h, Option.none_or]
  cases e.ends? with
  | none => simp
  | some x =>
    obtain ⟨d', o'⟩ := x
    by_cases hd : d' = d
    · simp [hd]
    · simp [hd]

/-- Events that end no deferred give no outcome. -/
theorem outcome?_cons (he : e.ends? = none) : outcome? d (e :: older) = outcome? d older := by
  rw [outcome?, he]
  exact Option.or_none

/-- What happens to other deferreds gives a deferred no outcome. -/
theorem outcome?_frame (he : e.subject? ≠ some d) : outcome? d (e :: older) = outcome? d older := by
  cases hends : e.ends? with
  | none => exact outcome?_cons hends
  | some x =>
    have hne : x.1 ≠ d := fun hd => he (hd ▸ DeferralEvent.subject?_of_ends? hends)
    rw [outcome?, hends, Option.filter_some, if_neg (by simpa using hne)]
    exact Option.or_none

theorem latest?_cons (he : ∀ k, e ≠ .attached d k) : latest? d (e :: older) = latest? d older := by
  cases e with
  | attached d' k => exact if_neg fun hd => he k (by rw [hd])
  | _ => rfl

theorem latest?_eq_some_iff : latest? d h = some k ↔
    ∃ between older, h = between ++ .attached d k :: older ∧ ∀ k', .attached d k' ∉ between := by
  induction h with
  | nil => simp [latest?]
  | cons e h ih =>
    by_cases he : ∃ k', e = .attached d k'
    · obtain ⟨k', rfl⟩ := he
      rw [latest?, if_pos rfl]
      constructor
      · rintro ⟨⟩
        exact ⟨[], h, rfl, fun _ => List.not_mem_nil⟩
      · rintro ⟨between, older, hh, hl⟩
        cases between with
        | nil =>
          cases hh
          rfl
        | cons e' between =>
          cases hh
          exact absurd (List.mem_cons_self ..) (hl k')
    · rw [latest?_cons (not_exists.1 he), ih]
      constructor
      · rintro ⟨between, older, rfl, hl⟩
        refine ⟨e :: between, older, rfl, fun k' hm => ?_⟩
        obtain rfl | hm := List.mem_cons.1 hm
        · exact he ⟨k', rfl⟩
        · exact hl k' hm
      · rintro ⟨between, older, hh, hl⟩
        cases between with
        | nil =>
          cases hh
          exact absurd ⟨k, rfl⟩ he
        | cons e' between =>
          cases hh
          exact ⟨between, older, rfl, fun k' hm => hl k' (List.mem_cons_of_mem _ hm)⟩

theorem attached_of_latest? (hl : latest? d h = some k) : .attached d k ∈ h := by
  obtain ⟨between, older, rfl, -⟩ := latest?_eq_some_iff.1 hl
  exact List.mem_append_right _ (List.mem_cons_self ..)

/-! ## What is due -/

theorem brings_eq_some : brings older e = some (k, o) ↔
    (∃ d, e = .attached d k ∧ outcome? d older = some o) ∨
      ∃ d, e.ends? = some (d, o) ∧ outcome? d older = none ∧ latest? d older = some k := by
  have ending (he : ∀ d k, e ≠ .attached d k) : brings older e = some (k, o) ↔
      ∃ d, e.ends? = some (d, o) ∧ outcome? d older = none ∧ latest? d older = some k := by
    have hb : brings older e = match e.ends? with
        | none => none
        | some (d, o) =>
          if (outcome? d older).isNone then (latest? d older).map (·, o) else none := by
      cases e with
      | attached d k => exact absurd rfl (he d k)
      | _ => rfl
    rw [hb]
    cases e.ends? with
    | none => simp
    | some x =>
      obtain ⟨d, o'⟩ := x
      dsimp only
      by_cases ho : outcome? d older = none
      · rw [if_pos (by rw [ho]; rfl)]
        constructor
        · intro hm
          obtain ⟨k', hk, heq⟩ := Option.map_eq_some_iff.1 hm
          cases heq
          exact ⟨d, rfl, ho, hk⟩
        · rintro ⟨d', heq, -, hk⟩
          cases heq
          rw [hk]
          rfl
      · rw [if_neg (by simpa using ho)]
        refine iff_of_false (by simp) ?_
        rintro ⟨d', heq, ho', -⟩
        cases heq
        exact ho ho'
  cases e with
  | attached d' k' =>
    have hends : (DeferralEvent.attached d' k').ends? = none := rfl
    rw [brings, Option.map_eq_some_iff]
    constructor
    · rintro ⟨o', ho, heq⟩
      cases heq
      exact .inl ⟨d', rfl, ho⟩
    · rintro (⟨d, heq, ho⟩ | ⟨d, heq, -⟩)
      · cases heq
        exact ⟨o, ho, rfl⟩
      · cases hends.symm.trans heq
  | _ =>
    rw [ending (by simp)]
    simp

/-- What an event calls for is called for by the history that ends with it. -/
theorem called_cons : Called (e :: h) k o ↔ brings h e = some (k, o) ∨ Called h k o := by
  rw [brings_eq_some]
  constructor
  · rintro (@⟨d, newer, older, hh, ho⟩ | @⟨d, newer, e', between, older, hh, he, ho, hl⟩)
    · cases newer with
      | nil =>
        cases hh
        exact .inl (.inl ⟨d, rfl, ho⟩)
      | cons e' newer =>
        cases hh
        exact .inr (.late rfl ho)
    · cases newer with
      | nil =>
        cases hh
        exact .inl (.inr ⟨d, he, ho, latest?_eq_some_iff.2 ⟨between, older, rfl, hl⟩⟩)
      | cons e'' newer =>
        cases hh
        exact .inr (.waiting rfl he ho hl)
  · rintro ((⟨d, rfl, ho⟩ | ⟨d, he, ho, hk⟩) | hc)
    · exact .late (List.nil_append _).symm ho
    · obtain ⟨between, older, rfl, hl⟩ := latest?_eq_some_iff.1 hk
      exact .waiting (List.nil_append _).symm he ho hl
    · cases hc with
      | late hh ho => exact .late ((congrArg (e :: ·) hh).trans List.cons_append.symm) ho
      | waiting hh he ho hl =>
        exact .waiting ((congrArg (e :: ·) hh).trans List.cons_append.symm) he ho hl

/-- **What is due is what is called for.** -/
theorem mem_due : (k, o) ∈ due h ↔ Called h k o := by
  induction h with
  | nil =>
    refine iff_of_false List.not_mem_nil ?_
    rintro (⟨hh, -⟩ | ⟨hh, -⟩)
    · cases List.append_eq_nil_iff.1 hh.symm |>.2
    · cases List.append_eq_nil_iff.1 hh.symm |>.2
  | cons e h ih => rw [called_cons, due, List.mem_append, Option.mem_toList, ih]

/-- What is due was attached to a deferred that has the outcome. -/
theorem attached_of_called (hc : Called h k o) : ∃ d, .attached d k ∈ h ∧ outcome? d h = some o := by
  cases hc with
  | @late d newer older hh ho =>
    subst hh
    refine ⟨d, List.mem_append_right _ (List.mem_cons_self ..), outcome?_append newer ?_⟩
    rw [outcome?_cons rfl, ho]
  | @waiting d newer e between older hh he ho hl =>
    subst hh
    refine ⟨d, ?_, outcome?_append newer ((outcome?_cons_of_none ho).2 he)⟩
    exact List.mem_append_right _ (List.mem_cons_of_mem _
      (List.mem_append_right _ (List.mem_cons_self ..)))

/-- A number stands for one attachment. -/
theorem attached_unique (hs : (serials h).Nodup) {d' : DeferredId} {k' : Later}
    (hd : .attached d k ∈ h) (hd' : .attached d' k' ∈ h) (hk : k.serial = k'.serial) :
    d = d' ∧ k = k' := by
  induction h with
  | nil => cases hd
  | cons e h ih =>
    cases e with
    | attached d'' k'' =>
      rw [serials, List.nodup_cons, mem_serials] at hs
      simp only [List.mem_cons, DeferralEvent.attached.injEq] at hd hd'
      obtain ⟨rfl, rfl⟩ | hd := hd
      · obtain ⟨rfl, rfl⟩ | hd' := hd'
        · exact ⟨rfl, rfl⟩
        · exact absurd ⟨d', k', hd', hk.symm⟩ hs.1
      · obtain ⟨rfl, rfl⟩ | hd' := hd'
        · exact absurd ⟨d, k, hd, hk⟩ hs.1
        · exact ih hs.2 hd hd'
    | _ =>
      simp only [List.mem_cons, reduceCtorEq, false_or] at hd hd'
      exact ih hs hd hd'

/-- **No continuation is due twice.** -/
theorem nodup_due (hs : (serials h).Nodup) : ((due h).map (·.1.serial)).Nodup := by
  induction h with
  | nil => exact .nil
  | cons e h ih =>
    have hold : (serials h).Nodup := by
      cases e with
      | attached d k => exact (List.nodup_cons.1 hs).2
      | _ => exact hs
    rw [due]
    cases hb : brings h e with
    | none => exact ih hold
    | some x =>
      obtain ⟨k, o⟩ := x
      refine List.nodup_cons.2 ⟨fun hm => ?_, ih hold⟩
      obtain ⟨⟨k', o'⟩, hdue, hk⟩ := List.mem_map.1 hm
      obtain ⟨d', hd', ho'⟩ := attached_of_called (mem_due.1 hdue)
      obtain ⟨d, rfl, -⟩ | ⟨d, -, ho, hlatest⟩ := brings_eq_some.1 hb
      · exact (List.nodup_cons.1 hs).1 (mem_serials.2 ⟨d', k', hd', hk⟩)
      · obtain ⟨rfl, -⟩ := attached_unique hold (attached_of_latest? hlatest) hd' hk.symm
        cases ho.symm.trans ho'

end

end Deferrals

end Isthmus
