import Isthmus.Bridge.ToForeign
import Isthmus.Proofs.Values.Instances

/-!
# Proofs/Values/Endings — conversions that may stop early

Whether a native value converts depends on the registry, which need not keep the built-in conversions:
the constants of a class may not convert, and then there is no class.  `Engine.Ends` says of an action
what holds when it comes to its end and what holds when it stops early.

`Engine.ends_encode`: giving a value its foreign form only adds to the world, however it ends, unless the
value is a deferred.
-/

namespace Isthmus.Engine

open World

variable {α β : Type} {w w' : World} {cx : ContextId} {r : Registry}

/-! ## Endings -/

/-- The action ends: with the first property if it comes to its end, with the second if it stops. -/
def Ends (m : Engine α) (w : World) (P : α → World → Prop) (Q : World → Prop) : Prop :=
  match m.run w with
  | .ok a w' => P a w'
  | .error _ w' => Q w'

section

variable {m : Engine α} {P P' : α → World → Prop} {Q Q' : World → Prop}

theorem Gives.ends (h : Gives m w P) : Ends m w P Q := by
  obtain ⟨a, w', hr, h⟩ := h
  rw [Ends, hr]
  exact h

namespace Ends

theorem pure {a : α} (h : P a w) : Ends (Pure.pure a) w P Q :=
  h

theorem stop {e : Stop} (hr : m.run w = .error e w') (h : Q w') : Ends m w P Q := by
  rw [Ends, hr]
  exact h

theorem get {f : World → Engine β} {P : β → World → Prop} (h : Ends (f w) w P Q) :
    Ends (MonadState.get >>= f) w P Q :=
  h

theorem bind {f : α → Engine β} {R : β → World → Prop} (hm : Ends m w P Q)
    (hf : ∀ a w', P a w' → Ends (f a) w' R Q) : Ends (m >>= f) w R Q := by
  rw [Ends] at hm
  cases hr : m.run w with
  | ok a w' =>
    rw [hr] at hm
    rw [Ends, run_bind_of_ok hr]
    exact hf a w' hm
  | error e w' =>
    rw [hr] at hm
    exact .stop (run_bind_of_error hr) hm

theorem mono (h : Ends m w P Q) (hp : ∀ a w', P a w' → P' a w') (hq : ∀ w', Q w' → Q' w') :
    Ends m w P' Q' := by
  rw [Ends] at h ⊢
  cases hr : m.run w with
  | ok a w' =>
    rw [hr] at h
    exact hp a w' h
  | error e w' =>
    rw [hr] at h
    exact hq w' h

theorem attempt (h : Ends m w P Q) :
    Gives (Engine.attempt m) w fun x w' =>
      (∃ a, x = .ok a ∧ P a w') ∨ ∃ e, x = .error e ∧ Q w' := by
  rw [Ends] at h
  have hrun := run_attempt m w
  cases hr : m.run w with
  | ok a w' =>
    rw [hr] at h hrun
    exact .intro hrun (.inl ⟨a, rfl, h⟩)
  | error e w' =>
    rw [hr] at h hrun
    exact .intro hrun (.inr ⟨e, rfl, h⟩)

theorem mapM {ι : Type} {f : ι → Engine β} {P : β → Prop} {Q : World → Prop} {l : List ι}
    (h : ∀ i ∈ l, Ends (f i) w (fun b w' => w' = w ∧ P b) Q) :
    Ends (l.mapM f) w (fun bs w' => w' = w ∧ ∀ b ∈ bs, P b) Q := by
  induction l with
  | nil => exact .pure ⟨rfl, by simp⟩
  | cons i l ih =>
    rw [List.mapM_cons]
    refine .bind (h i (List.mem_cons_self ..)) ?_
    rintro b _ ⟨rfl, hb⟩
    refine .bind (ih fun i hi => h i (List.mem_cons_of_mem _ hi)) ?_
    rintro bs _ ⟨rfl, hbs⟩
    exact .pure ⟨rfl, List.forall_mem_cons.2 ⟨hb, hbs⟩⟩

end Ends

end

/-! ## Plain values -/

theorem ends_raiseTypeError (w : World) (cx : ContextId) (message : String)
    {P : α → World → Prop} : Ends (raiseTypeError cx message : Engine α) w P (Builds cx w) := by
  have hadd : Builds cx w (w.adding
      { context := cx
        kind := .error
        properties := [("name", .data (.string "TypeError") true false),
          ("message", .data (.string message) true false)] }) :=
    .adding w rfl rfl (by rintro items ⟨⟩)
  exact .stop rfl hadd

/-- **A plain conversion** adds a buffer at most, or the error that it throws. -/
theorem ends_encodePlain (w : World) (cx : ContextId) (limit : Nat) (e : Encoder) (v : NativeValue) :
    Ends (encodePlain cx limit e v) w (fun f w' => Builds cx w w' ∧ w'.isPresent f)
      (Builds cx w) := by
  rw [encodePlain.eq_def]
  split
  · exact .pure ⟨.refl w, rfl⟩
  · exact .pure ⟨.refl w, rfl⟩
  · exact .pure ⟨.refl w, rfl⟩
  · exact .pure ⟨.refl w, rfl⟩
  · next b =>
    split
    · have hadd : Builds cx w (w.adding { context := cx, kind := .arrayBuffer b }) :=
        .adding w rfl rfl (by rintro items ⟨⟩)
      refine Gives.ends (.step (run_allocate _) (.pure ⟨hadd, ?_⟩))
      exact Option.isSome_iff_exists.2 ⟨_, object?_adding w _⟩
    · exact .pure ⟨.refl w, rfl⟩
  · exact .pure ⟨.refl w, rfl⟩
  · exact .pure ⟨.refl w, rfl⟩
  · exact ends_raiseTypeError w cx _
  · exact .pure ⟨.refl w, rfl⟩

/-! ## Classes -/

theorem ends_constantDefinition (w : World) (cx : ContextId) (r : Registry) (d : TypeDescriptor)
    (name : String) (c : Constant) :
    Ends (constantDefinition cx r d name c) w (fun def' w' => w' = w ∧ def'.IsPlain)
      (Builds cx w) := by
  rw [Ends]
  cases hr : (constantDefinition cx r d name c).run w with
  | ok def' w' => exact (constantDefinition_ok hr).imp_right ConstantDefinition.isPlain
  | error stop w' =>
    -- The conversion is what may leave something behind; what follows stops as it is.
    have hends : Ends (constantDefinition cx r d name c) w (fun _ w' => Builds cx w w')
        (Builds cx w) := by
      rw [constantDefinition]
      cases r.encoder? c.toNative.typeId with
      | none => exact .stop rfl (.refl w)
      | some e =>
        refine .bind (ends_encodePlain w cx _ e c.toNative).attempt.ends ?_
        rintro x w₁ (⟨f, rfl, hb, -⟩ | ⟨stop, rfl, hb⟩)
        · exact .pure hb
        · cases stop with
          | thrown reason => exact .stop rfl hb
          | failed kind message => exact .stop rfl hb
          | aborted text => exact .stop rfl hb
          | exhausted => exact .stop rfl hb
    rw [Ends, hr] at hends
    exact hends

/-- The class is generated, or a constant does not convert. -/
theorem ends_generateClass (w : World) (cx : ContextId) (r : Registry) (key : ClassKey) :
    Ends (generateClass cx r key) w (fun cls w' => Builds cx w w' ∧ w'.IsClass cx cls)
      (Builds cx w) := by
  refine .get (.bind (Ends.mapM (P := Definition.IsPlain)
    fun e _ => ends_constantDefinition w cx r (w.plans.descriptor key) e.1 e.2) ?_)
  rintro constants _ ⟨rfl, hplain⟩
  exact (gives_members _ cx key _ hplain).ends

theorem ends_classOf (hw : w.Hosts cx r) (key : ClassKey) :
    Ends (classOf cx key) w (fun cls w' => Grows cx w w' ∧ w'.IsClass cx cls) (Grows cx w) := by
  obtain ⟨id, i, hb, rfl, hc⟩ := hw
  rw [Ends, classOf, run_bind_of_ok (run_bridge hb)]
  dsimp only
  cases hf : i.classes.find? (·.1 = key) with
  | some e =>
    have hheld : Builds cx w (w.holding [.object e.2]) := .holding w _
    have hgives : Gives (do hold [.object e.2]; return e.2) w fun cls w' =>
        Grows cx w w' ∧ w'.IsClass cx cls :=
      .step (run_hold [.object e.2]) (.pure
        ⟨hheld.toGrows, hheld.isClass (hc e (List.mem_of_find?_eq_some hf))⟩)
    exact Gives.ends (Q := Grows cx w) hgives
  | none =>
    refine Ends.bind ((ends_generateClass w cx i.registry key).mono (fun _ _ h => h)
      fun _ h => h.toGrows) fun cls w' h => ?_
    have hkeep : Grows cx w' { w' with
        installations := w'.installations.modify id.index fun i =>
          { i with classes := i.classes ++ [(key, cls)] } } := .keepClass id (key, cls) h.2
    exact Gives.ends (.step rfl (.pure ⟨h.1.toGrows.trans hkeep, hkeep.isClass h.2⟩))

/-! ## Encoders -/

theorem Wraps.isPresent {obj cls inst} (h : w.Wraps cx obj cls inst) : w.isPresent (.object obj) := by
  obtain ⟨o, -, -, ho, -⟩ := h
  exact Option.isSome_iff_exists.2 ⟨o, ho⟩

theorem ends_wrapNative (run : Runner) (hw : w.Hosts cx r) (cls : ClassKey) (v : NativeValue) :
    Ends (wrapNative run cx cls v) w (fun f w' => Grows cx w w' ∧ w'.isPresent f) (Grows cx w) := by
  have hrefuse : Ends (wrapNative.refuse cx cls v w) w
      (fun f w' => Grows cx w w' ∧ w'.isPresent f) (Grows cx w) :=
    (ends_raiseTypeError w cx _).mono (fun _ _ h => h) fun _ h => h.toGrows
  refine .get ?_
  split
  · next inst _ =>
    split
    · have hhold : Grows cx w (w.holding [.inst inst]) := (Builds.holding w _).toGrows
      refine .bind (P := fun _ w₀ => Grows cx w w₀) hhold fun _ w₀ h₀ => ?_
      refine .bind (P := fun obj w' => Grows cx w w' ∧ w'.Wraps cx obj cls inst) ?_
        fun obj w' h => .pure ⟨h.1, Wraps.isPresent h.2⟩
      have hclass := ends_classOf (h₀.hosts hw) cls
      refine .bind (P := fun c w₁ => Grows cx w w₁ ∧ w₁.IsClass cx c)
        (hclass.mono (fun _ _ h => ⟨h₀.trans h.1, h.2⟩) fun _ h => h₀.trans h) fun c w₁ h₁ => ?_
      exact ((gives_wrapped run (h₁.1.hosts hw) h₁.2 cls inst).mono fun _ _ h =>
        ⟨h₁.1.trans h.1, h.2⟩).ends
    · exact hrefuse
  · exact hrefuse

/-- The encoder of a value does the work. -/
theorem toForeign_eq (run : Runner) {v : NativeValue} {e : Encoder} (hl : ∀ items, v ≠ .list items)
    (hv : ∀ content, v ≠ .variant content) (he : r.encoder? v.typeId = some e) :
    toForeign run cx r v = (do return .ok (← encode run cx r.maxBufferLength e v)) := by
  rw [toForeign]
  · simp only [he]
  · exact hv
  · exact hl

theorem toForeign_none (run : Runner) {v : NativeValue} (hl : ∀ items, v ≠ .list items)
    (hv : ∀ content, v ≠ .variant content) (he : r.encoder? v.typeId = none) :
    toForeign run cx r v = pure (.error (.noConverter (ClassKey.typeName v.typeId) true)) := by
  rw [toForeign]
  · simp only [he]
  · exact hv
  · exact hl

/-- **A conversion other than that of a deferred** only adds to the world, however it ends. -/
theorem ends_encode (run : Runner) (hw : w.Hosts cx r) (limit : Nat) {e : Encoder}
    (he : e ≠ .deferred) (v : NativeValue) :
    Ends (encode run cx limit e v) w (fun f w' => Grows cx w w' ∧ w'.isPresent f)
      (Grows cx w) := by
  have hplain : Ends (encodePlain cx limit e v) w
      (fun f w' => Grows cx w w' ∧ w'.isPresent f) (Grows cx w) :=
    (ends_encodePlain w cx limit e v).mono (fun _ _ h => ⟨h.1.toGrows, h.2⟩) fun _ h => h.toGrows
  cases e with
  | deferred => exact absurd rfl he
  | «instance» cls => exact ends_wrapNative run hw cls v
  | _ => exact hplain

end Isthmus.Engine
