import Isthmus.Proofs.Run.Dispatch
import Isthmus.Proofs.Values.Infer

/-!
# Proofs/Values/Texts — what has no text

The text of an error contains those of its name and its message, which scripts may assign, and the text of
an array contains those of its items, which never change and are older (`World.Nested`).  So a text contains
itself only by way of an error, and then describing the value does not come to an end.

* `Nested.describe?_eq_none_iff` — nothing else is without a text, and there are finitely many objects.
* `Reachable.describes` — what follows for descriptions, for reports and for the deliveries of a loop.
-/

namespace Isthmus

open Relation

namespace World

variable {w : World} {id id' : ObjectId} {v : ForeignValue}

/-! ## Texts inside texts -/

/-- The text of the first object contains that of the second. -/
def Shows (w : World) (id id' : ObjectId) : Prop :=
  ∃ o, w.object? id = some o ∧ .object id' ∈ textParts o

/-- An error whose text contains itself. -/
def Recurs (w : World) (id : ObjectId) : Prop :=
  (∃ o, w.object? id = some o ∧ o.kind = .error) ∧ TransGen w.Shows id id

/-- **The text of a value has no end**: it contains that of an error that contains itself, or it would
contain that of something that is gone. -/
def Endless (w : World) : ForeignValue → Prop
  | .object id => ∃ id', ReflTransGen w.Shows id id' ∧ (w.Recurs id' ∨ w.object? id' = none)
  | _ => False

/-- A value has a text exactly if all that its text contains has one. -/
theorem isSome_describe?_object :
    (w.describe? (.object id)).isSome ↔
      ∃ o, w.object? id = some o ∧ ∀ v ∈ textParts o, (w.describe? v).isSome := by
  have hmore (v : ForeignValue) :
      (w.describeWithin (w.objects.size + 2) v).isSome ↔ (w.describe? v).isSome := by
    refine ⟨isSome_describe?, fun h => ?_⟩
    obtain ⟨text, ht⟩ := Option.isSome_iff_exists.1 h
    exact Option.isSome_of_eq_some (describeWithin_succ ht)
  constructor
  · intro h
    obtain ⟨o, ho, hall⟩ := isSome_describeWithin.1 h
    exact ⟨o, ho, fun v hv => isSome_describe? (hall v hv)⟩
  · rintro ⟨o, ho, hall⟩
    exact (hmore _).1 (isSome_describeWithin.2 ⟨o, ho, hall⟩)

theorem isSome_describe?_of_shows (h : ReflTransGen w.Shows id id')
    (ht : (w.describe? (.object id)).isSome) : (w.describe? (.object id')).isSome := by
  induction h with
  | refl => exact ht
  | tail _ hshows ih =>
    obtain ⟨o, ho, hall⟩ := isSome_describe?_object.1 ih
    obtain ⟨o', ho', hm⟩ := hshows
    cases ho.symm.trans ho'
    exact hall _ hm

/-! ## A text that contains itself has no end -/

/-- What a text contains is seen at less depth. -/
theorem isSome_describeWithin_of_shows (h : TransGen w.Shows id id') {depth : Nat}
    (ht : (w.describeWithin depth (.object id)).isSome) :
    ∃ depth' < depth, (w.describeWithin depth' (.object id')).isSome := by
  have hstep {id id' : ObjectId} {depth : Nat} (h : w.Shows id id')
      (ht : (w.describeWithin depth (.object id)).isSome) :
      ∃ depth' < depth, (w.describeWithin depth' (.object id')).isSome := by
    cases depth with
    | zero => cases ht
    | succ depth =>
      obtain ⟨o, ho, hall⟩ := isSome_describeWithin.1 ht
      obtain ⟨o', ho', hm⟩ := h
      cases ho.symm.trans ho'
      exact ⟨depth, Nat.lt_succ_self depth, hall _ hm⟩
  induction h with
  | single h => exact hstep h ht
  | tail _ h ih =>
    obtain ⟨depth₁, hlt₁, ht₁⟩ := ih
    obtain ⟨depth₂, hlt₂, ht₂⟩ := hstep h ht₁
    exact ⟨depth₂, Nat.lt_trans hlt₂ hlt₁, ht₂⟩

theorem describeWithin_of_cycle (h : TransGen w.Shows id id) (depth : Nat) :
    ¬ (w.describeWithin depth (.object id)).isSome := by
  induction depth using Nat.strongRecOn with
  | _ depth ih =>
    intro ht
    obtain ⟨depth', hlt, ht'⟩ := isSome_describeWithin_of_shows h ht
    exact ih depth' hlt ht'

theorem Endless.describe?_eq_none (h : w.Endless v) : w.describe? v = none := by
  cases v with
  | object id =>
    obtain ⟨id', hshows, hend⟩ := h
    rw [← Option.not_isSome_iff_eq_none]
    intro ht
    have ht' := isSome_describe?_of_shows hshows ht
    obtain hrecurs | hgone := hend
    · exact describeWithin_of_cycle hrecurs.2 _ ht'
    · obtain ⟨o, ho, -⟩ := isSome_describe?_object.1 ht'
      cases ho.symm.trans hgone
  | _ => exact h.elim

/-! ## Nothing else is without a text -/

/-- Unless a text contains an error on the way, what it contains is older. -/
theorem Nested.exists_error (hn : w.Nested) (h : TransGen w.Shows id id') :
    id'.index < id.index ∨ ∃ e, (∃ o, w.object? e = some o ∧ o.kind = .error) ∧
      ReflTransGen w.Shows id e ∧ TransGen w.Shows e id' := by
  have hstep {a b : ObjectId} (h : w.Shows a b) :
      (∃ o, w.object? a = some o ∧ o.kind = .error) ∨ b.index < a.index := by
    obtain ⟨o, ho, hm⟩ := h
    cases hk : o.kind with
    | error => exact .inl ⟨o, ho, hk⟩
    | array items =>
      rw [textParts, hk] at hm
      exact .inr (hn a o items ho hk b hm)
    | _ =>
      rw [textParts, hk] at hm
      cases hm
  induction h with
  | single h =>
    obtain herror | hlt := hstep h
    · exact .inr ⟨id, herror, .refl, .single h⟩
    · exact .inl hlt
  | @tail a b hpath h ih =>
    obtain ih | ⟨e, herror, hto, hfrom⟩ := ih
    · obtain herror | hlt := hstep h
      · exact .inr ⟨a, herror, hpath.to_reflTransGen, .single h⟩
      · exact .inl (Nat.lt_trans hlt ih)
    · exact .inr ⟨e, herror, hto, hfrom.tail h⟩

/-- A text that contains itself contains an error that does so. -/
theorem Nested.exists_recurs (hn : w.Nested) (h : TransGen w.Shows id id) :
    ∃ e, ReflTransGen w.Shows id e ∧ w.Recurs e := by
  obtain hlt | ⟨e, herror, hto, hfrom⟩ := hn.exists_error h
  · exact absurd hlt (Nat.lt_irrefl _)
  · exact ⟨e, hto, herror, hfrom.trans_left hto⟩

/-- Texts come to an end where no text contains itself, as there are finitely many objects. -/
theorem isSome_describe?_of_acyclic
    (hpresent : ∀ id', ReflTransGen w.Shows id id' → (w.object? id').isSome)
    (hacyclic : ∀ id', ReflTransGen w.Shows id id' → ¬ TransGen w.Shows id' id') :
    (w.describe? (.object id)).isSome := by
  have hacc : Acc (fun b a => w.Shows a b) id := by
    refine Store.acc_of_acyclic (s := w.objects) (fun _ _ => ObjectId.index_inj.1) hpresent
      (fun a b hs => hs.tail) hacyclic .refl
  induction hacc with
  | intro a _ ih =>
    obtain ⟨o, ho⟩ := Option.isSome_iff_exists.1 (hpresent a .refl)
    refine isSome_describe?_object.2 ⟨o, ho, fun v hv => ?_⟩
    cases v with
    | object b =>
      have hb : w.Shows a b := ⟨o, ho, hv⟩
      exact ih b hb (fun id' hs => hpresent id' (.head hb hs)) fun id' hs => hacyclic id' (.head hb hs)
    | _ => rfl

/-- **What has no text**. -/
theorem Nested.describe?_eq_none_iff (hn : w.Nested) : w.describe? v = none ↔ w.Endless v := by
  refine ⟨fun h => ?_, Endless.describe?_eq_none⟩
  cases v with
  | object id =>
    by_contra hends
    have hends (id' : ObjectId) (hs : ReflTransGen w.Shows id id') :
        ¬ (w.Recurs id' ∨ w.object? id' = none) := fun he => hends ⟨id', hs, he⟩
    refine Option.not_isSome_iff_eq_none.2 h (isSome_describe?_of_acyclic (fun id' hs => ?_) ?_)
    · exact Option.isSome_iff_ne_none.2 fun hgone => hends id' hs (.inr hgone)
    · intro id' hs hcycle
      obtain ⟨e, hto, he⟩ := hn.exists_recurs hcycle
      exact hends e (hs.trans hto) (.inl he)
  | _ => cases h

theorem Nested.exists_describe? (hn : w.Nested) (h : ¬ w.Endless v) :
    ∃ text, w.describe? v = some text :=
  Option.ne_none_iff_exists'.1 fun ht => h (hn.describe?_eq_none_iff.1 ht)

/-- The world after a line was written to the diagnostics of a context. -/
def diagnosed (w : World) (cx : ContextId) (line : String) : World :=
  { w with
    contexts := w.contexts.modify cx.index fun c => { c with diagnostics := c.diagnostics ++ [line] } }

end World

/-! ## Descriptions, reports and deliveries -/

namespace Engine

variable {w : World} {vs : List ForeignValue}

theorem run_describeAll (h : ∀ v ∈ vs, ∃ text, w.describe? v = some text) :
    ∃ texts, (vs.mapM describe).run w = .ok texts w := by
  induction vs with
  | nil => exact ⟨[], rfl⟩
  | cons v vs ih =>
    obtain ⟨⟨text, ht⟩, hvs⟩ := List.forall_mem_cons.1 h
    obtain ⟨texts, hrun⟩ := ih hvs
    rw [List.mapM_cons, run_bind_of_ok (run_describe ht), run_bind_of_ok hrun]
    exact ⟨text :: texts, rfl⟩

theorem run_describeAll_none {v : ForeignValue} (hv : v ∈ vs) (h : w.describe? v = none) :
    (vs.mapM describe).run w = .error .exhausted w := by
  induction vs with
  | nil => cases hv
  | cons u vs ih =>
    rw [List.mapM_cons]
    cases hu : w.describe? u with
    | none => exact run_bind_of_error (run_describe_none hu)
    | some text =>
      obtain rfl | hv := List.mem_cons.1 hv
      · cases hu.symm.trans h
      · rw [run_bind_of_ok (run_describe hu), run_bind_of_error (ih hv)]

end Engine

/-- **Describing a value** comes to an end, or the value is endless. -/
structure World.Describes (w : World) : Prop where
  text : ∀ v, w.describe? v = none ↔ w.Endless v
  ends : ∀ {v}, ¬ w.Endless v → ∃ text, (Engine.describe v).run w = .ok text w ∧
    ∀ cx, (Engine.reportException cx v).run w = .ok () (w.diagnosed cx text)
  endless : ∀ {v}, w.Endless v → (Engine.describe v).run w = .error .exhausted w ∧
    ∀ cx, (Engine.reportException cx v).run w = .error .exhausted w
  /-- A line is written once all its parts are described. -/
  console : ∀ cx (info : CallInfo),
    (∀ v ∈ info.args, ¬ w.Endless v) ∧ (∃ line, (Session.consoleError cx info).run w =
      .ok .undefined (w.diagnosed cx line)) ∨
    (∃ v ∈ info.args, w.Endless v) ∧ (Session.consoleError cx info).run w = .error .exhausted w
  /-- A throw out of a delivery goes to the diagnostics and the loop goes on, unless what is thrown is
  endless. -/
  deliveries : ∀ {n cx wake rest v w₁}, (w.loopOf cx).queue = wake :: rest →
    (Engine.runWake (Session.runner n) cx wake).run { w.pop cx wake rest with held := [] :: w.held } =
      .error (.thrown v) w₁ →
    (¬ w₁.Endless v ∧ ∃ text w', w₁.describe? v = some text ∧
      (Engine.deliverNext (Session.runner n) cx).run w = .ok true w' ∧ ∀ c, w'.diagnostics? c =
        if c = cx then (w₁.diagnostics? c).map (· ++ [text]) else w₁.diagnostics? c) ∨
    w₁.Endless v ∧ ∃ w', (Engine.deliverNext (Session.runner n) cx).run w = .error .exhausted w'

theorem Reachable.describes {w : World} (h : Reachable w) : w.Describes where
  text _ := h.nested.describe?_eq_none_iff
  ends hv := by
    obtain ⟨text, ht⟩ := h.nested.exists_describe? hv
    exact ⟨text, Engine.run_describe ht, fun cx => Engine.run_bind_of_ok (Engine.run_describe ht)⟩
  endless hv := by
    have hd := Engine.run_describe_none hv.describe?_eq_none
    exact ⟨hd, fun cx => Engine.run_bind_of_error hd⟩
  console cx info := by
    by_cases hv : ∃ v ∈ info.args, w.Endless v
    · obtain ⟨v, hm, hend⟩ := hv
      have hall := Engine.run_describeAll_none hm hend.describe?_eq_none
      exact .inr ⟨⟨v, hm, hend⟩, Engine.run_bind_of_error hall⟩
    · have hv (v : ForeignValue) (hm : v ∈ info.args) : ¬ w.Endless v := fun he => hv ⟨v, hm, he⟩
      obtain ⟨texts, hall⟩ := Engine.run_describeAll fun v hm => h.nested.exists_describe? (hv v hm)
      exact .inl ⟨hv, " ".intercalate texts, Engine.run_bind_of_ok hall⟩
  deliveries {n cx wake rest v w₁} hq hw := by
    have hmoves := (Worked.runWake (runs n) h hq ([] :: w.held)).within.moves
    rw [Engine.after_of_error hw] at hmoves
    by_cases hv : w₁.Endless v
    · exact .inr ⟨hv, Engine.run_deliverNext_of_endless hq hw hv.describe?_eq_none⟩
    · obtain ⟨text, ht⟩ := (h.moves hmoves).nested.exists_describe? hv
      obtain ⟨w', hd, hdiag⟩ := Engine.run_deliverNext_of_thrown hq hw ht
      exact .inl ⟨hv, text, w', ht, hd, hdiag⟩

namespace Describing

/-- An error with the given message. -/
def error (message : ForeignValue) : Object where
  context := ⟨0⟩
  kind := .error
  properties := [("name", .data (.string "Error") true false), ("message", .data message true false)]

def created : World :=
  World.hosted.adding (error (.string "m"))

/-- Its message is assigned: the error is its own message now. -/
def selfish : World :=
  created.putting ⟨0⟩ "message" (.data (.object ⟨0⟩) true false)

theorem run_setProperty (run : Runner) :
    (Engine.setProperty run ⟨0⟩ ⟨0⟩ "message" (.object ⟨0⟩)).run created = .ok () selfish := by
  have he : created.object? ⟨0⟩ = some (error (.string "m")) := rfl
  have hlookup : created.lookup ⟨0⟩ "message" = some (.data (.string "m") true false, true) := by
    rw [World.lookup]
    rfl
  have howned : (Engine.checkOwned ⟨0⟩ ⟨0⟩).run created = .ok () created := Engine.run_checkOwned he rfl
  rw [Engine.setProperty, Engine.run_bind_of_ok howned, Engine.run_get_bind, hlookup]
  exact Engine.run_putOwn he (by decide) "message" _

theorem reachable_selfish : Reachable selfish := by
  have hassign : Conserves Active (do
      let e ← Engine.createError ⟨0⟩ "Error" "m"
      Engine.setProperty (Session.runner 1) ⟨0⟩ e "message" (.object e)) :=
    .bind .createError fun _ => .setProperty (runs 1).answers
  obtain ⟨hmoves, -⟩ := hassign World.hosted reachable_hosted
  have hrun := Engine.run_bind_of_ok (f := fun e => Engine.setProperty (Session.runner 1) ⟨0⟩ e "message"
    (.object e)) (show (Engine.createError ⟨0⟩ "Error" "m").run World.hosted = .ok ⟨0⟩ created from rfl)
  rw [Engine.after_of_ok (hrun.trans (run_setProperty _))] at hmoves
  exact reachable_hosted.moves hmoves

theorem endless_selfish : selfish.Endless (.object ⟨0⟩) := by
  have he : selfish.object? ⟨0⟩ = some (error (.object ⟨0⟩)) := rfl
  have hshows : selfish.Shows ⟨0⟩ ⟨0⟩ := ⟨_, he, List.mem_cons_of_mem _ List.mem_cons_self⟩
  exact ⟨⟨0⟩, .refl, .inl ⟨⟨_, he, rfl⟩, .single hshows⟩⟩

end Describing

/-- An error with the text `Error: m` has none any more once it is its own message. -/
theorem describes_of_selfish :
    Describing.created.describe? (.object ⟨0⟩) = some "Error: m" ∧
    Describing.selfish.describe? (.object ⟨0⟩) = none ∧
    (∀ cx, (Engine.reportException cx (.object ⟨0⟩)).run Describing.selfish =
      .error .exhausted Describing.selfish) ∧
    ∃ line, (Session.consoleError ⟨0⟩ { args := [.null] }).run Describing.selfish =
      .ok .undefined (Describing.selfish.diagnosed ⟨0⟩ line) := by
  have hdescribes := Describing.reachable_selfish.describes
  have hend := Describing.endless_selfish
  refine ⟨rfl, (hdescribes.text _).2 hend, (hdescribes.endless hend).2, ?_⟩
  obtain ⟨-, hline⟩ | ⟨⟨v, hm, hv⟩, -⟩ := hdescribes.console ⟨0⟩ { args := [.null] }
  · exact hline
  · obtain rfl := List.mem_singleton.1 hm
    exact hv.elim

end Isthmus
