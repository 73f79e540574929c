import Isthmus.Proofs.Run.Futures
import Isthmus.Proofs.Run.Scripts

/-!
# Proofs/Run/Deliveries — what deliveries do to the world

Code that a script wrote may settle promises and deliver.  If all that it runs in turn ends the deliveries
that it begins (`Runs`), so does it.

* `Active.deliverNext` — delivering a wake is a sequence of moves: the delivery begins, does what the wake
  asks for, and ends.
-/

namespace Isthmus

open History

/-- Whatever code runs conserves the relation. -/
structure Runs (R : World → World → Prop) (run : Runner) : Prop where
  call : ∀ {cx code info}, Conserves R (run.call cx code info)
  react : ∀ {cx r fulfilled v}, Conserves R (run.react cx r fulfilled v)
  deliver : ∀ {cx label body}, Conserves R (run.deliver cx label body)

/-- Who runs code that keeps a relation answers calls with it. -/
theorem Runs.answers {R : World → World → Prop} {run : Runner} (h : Runs R run) : Answers R run where
  call := h.call

namespace Conserves

variable {R : World → World → Prop} [ScriptWork R] {run : Runner} {cx : ContextId}

/-! ## Calls -/

theorem call (hrun : Runs R run) {f receiver args} :
    Conserves R (Engine.call run cx f receiver args) :=
  bind callable fun _ => bind checkOwned fun _ => hrun.call

theorem callMethod (hrun : Runs R run) {id name args} :
    Conserves R (Engine.callMethod run cx id name args) :=
  bind (getProperty hrun.answers) fun _ => bind get fun _ => check raiseTypeError fun _ => call hrun

/-- To construct is to call, with a new object as the receiver. -/
theorem construct (hrun : Runs R run) {cls args} :
    Conserves R (Engine.construct run cx cls args) := by
  refine bind callable fun _ => bind checkOwned fun _ => bind (createInstance hrun.answers) fun _ =>
    bind hrun.call fun v => ?_
  split
  · exact pure
  · exact pure

/-- An exported class is constructed like any other. -/
theorem constructExported (hrun : Runs R run) {name args} :
    Conserves R (Session.constructExported run cx name args) := by
  refine bind (exportedClass hrun.answers) fun cls => check raiseTypeError fun _ => ?_
  refine bind (construct hrun) fun v => ?_
  split
  · exact pure
  · exact bind describe fun _ => raiseTypeError

/-! ## Promises -/

omit [ScriptWork R] in
/-- To note what a promise was settled with is quiet. -/
theorem observe [Discipline R] {promise e} : Conserves R (Engine.observe promise e) :=
  .modify fun _ => Discipline.passive (.quiet (.of_eq rfl rfl))

omit [ScriptWork R] in
/-- A reaction runs, and it is noted when it begins and when it ends. -/
theorem reactWith [IsPreorder World R] (hrun : Runs R run) {promise r fulfil v}
    (hobserve : ∀ e, Conserves R (Engine.observe promise e)) :
    Conserves R (Engine.react run cx promise r fulfil v) :=
  bind (hobserve _) fun _ => bind hrun.react fun _ => hobserve _

omit [ScriptWork R] in
/-- A reaction runs the code of a script, and a throw of it is reported. -/
theorem react [Discipline R] (hrun : Runs R run) {promise r fulfil v} :
    Conserves R (Engine.react run cx promise r fulfil v) :=
  reactWith hrun fun _ => observe

omit [ScriptWork R] in
/-- A reaction is added to a pending promise, and runs at once for a settled one. -/
theorem onSettled [Discipline R] (hrun : Runs R run) {promise r} :
    Conserves R (Engine.onSettled run cx promise r) := by
  refine bind checkOwned fun _ => bind' object fun w o w' ho => ?_
  obtain ⟨rfl, ho⟩ := Engine.object_ok ho
  split
  · next reactions hk =>
    have hpend {o'} (ho' : w'.object? promise = some o') :
        o'.kind = .promise (.pending reactions) := Option.some.inj (ho.symm.trans ho') ▸ hk
    have hkept : ObjectsKept w'.objects (w'.objects.modify promise.index fun o =>
        { o with kind := .promise (.pending (reactions ++ [r])) }) :=
      .modify _ promise fun o' ho' => ⟨rfl, .inr ⟨reactions, reactions ++ [r], hpend ho', rfl⟩⟩
    have hq : Quiet w' ((Engine.modifyObject promise fun o =>
        { o with kind := .promise (.pending (reactions ++ [r])) }).after w') :=
      .of_frame hkept rfl
    exact step_now (Discipline.passive (.quiet hq)) fun _ w'' _ => observe w''
  · exact bind observe (fun _ => bind hold fun _ => react hrun) w'
  · exact bind observe (fun _ => bind hold fun _ => react hrun) w'
  · exact pure w'

section

omit [ScriptWork R]

variable {promise : ObjectId} (hrun : Runs R run)
  (hstate : ∀ state, Conserves R (Engine.modifyObject promise ({ · with kind := .promise state })))
  (hobserve : ∀ e, Conserves R (Engine.observe promise e))

include hrun hstate hobserve

/-- A promise gets its outcome, and its reactions run. -/
theorem settleWith [IsPreorder World R] {fulfil v} :
    Conserves R (Engine.settle run cx promise fulfil v) := by
  refine bind object fun o => ?_
  split
  · exact bind (hstate _) fun _ => bind (hobserve _) fun _ => forM fun _ => reactWith hrun hobserve
  · exact pure

/-- A reaction waits, or runs at once. -/
theorem onSettledWith [Holds R] {r} : Conserves R (Engine.onSettled run cx promise r) := by
  refine bind checkOwned fun _ => bind object fun o => ?_
  split
  · exact bind (hstate _) fun _ => hobserve _
  · exact bind (hobserve _) fun _ => bind hold fun _ => reactWith hrun hobserve
  · exact bind (hobserve _) fun _ => bind hold fun _ => reactWith hrun hobserve
  · exact pure

end

/-- A report describes what was thrown, and adds a line to the diagnostics. -/
theorem reportException {v} : Conserves R (Engine.reportException cx v) :=
  bind describe fun _ => report

end Conserves

/-! ## Getters and setters -/

/-- Code without a depth answers nothing. -/
theorem Answers.exhausted {R : World → World → Prop} [IsPreorder World R] : Answers R .exhausted where
  call := .throw

/-- Getters and setters conserve whatever giving foreign code an object and writing to an instance do,
however deep they are. -/
theorem answersWith {R : World → World → Prop} [ForeignWork R]
    (hwrite : ∀ id index v, Conserves R (Engine.writeMember id index v)) (n : Nat) :
    Answers R (Session.runner n) := by
  induction n with
  | zero => exact .exhausted
  | succ n ih =>
    refine ⟨fun {cx a info} => ?_⟩
    change Conserves R (Session.runCallback (Session.runner n) cx a.callback info)
    cases a with
    | stock code => exact .runStock ih
    | reader cls => exact .getMember ih
    | writer cls => exact .setMemberWith hwrite

/-- So they conserve whatever all that actions are made of does. -/
theorem answers {R : World → World → Prop} [ScriptWork R] (n : Nat) : Answers R (Session.runner n) :=
  answersWith (fun _ _ _ => .writeMember) n

/-! ## Settling -/

namespace Engine

variable {α : Type} {run : Runner} {cx : ContextId} {w : World} {p : ObjectId} {fulfil : Bool}
  {v : ForeignValue}

/-- The action came to its end, or threw a value. -/
def Unbroken : EStateM.Result Stop World α → Prop
  | .ok .. => True
  | .error (.thrown _) _ => True
  | .error _ _ => False

/-- The final state that settling gives to a promise. -/
def outcome (fulfil : Bool) (v : ForeignValue) : PromiseState :=
  if fulfil then .fulfilled v else .rejected v

/-- An object that is gone is not found. -/
theorem run_object_gone {id : ObjectId} (h : w.object? id = none) :
    (object id).run w = .error (.aborted "object is gone") w := by
  rw [object, run_get_bind, h]
  rfl

/-- A promise that is gone is not settled. -/
theorem run_settle_gone (h : w.object? p = none) :
    (settle run cx p fulfil v).run w = .error (.aborted "object is gone") w := by
  rw [settle, EStateM.run_bind, run_object_gone h]

/-- A pending promise is settled before its reactions run. -/
theorem run_settle {o reactions} (h : w.object? p = some o)
    (hk : o.kind = .promise (.pending reactions)) : (settle run cx p fulfil v).run w =
      (reactions.forM (react run cx p · fulfil v)).run
        ((w.fix p (outcome fulfil v)).observe p (.settled fulfil v)) := by
  rw [settle, EStateM.run_bind, run_object h]
  simp only [hk]
  rfl

/-- A promise that is settled already stays as it is. -/
theorem run_settle_of_not_pending {o} (h : w.object? p = some o) (hn : ¬ w.IsPending p) :
    (settle run cx p fulfil v).run w = .ok () w := by
  rw [settle, EStateM.run_bind, run_object h]
  dsimp only
  split
  · next reactions hk => exact absurd ⟨o, reactions, h, hk⟩ hn
  · rfl

end Engine

namespace Active

variable {run : Runner} {cx : ContextId} {w : World} {p : ObjectId} {fulfil : Bool}
  {v : ForeignValue}

/-- One move that leaves the deliveries alone. -/
theorem move {w w' : World} (h : Move w w') (hc : w'.course = w.course) : Active w w' :=
  Discipline.passive (.move h hc)

/-- A promise that is settled by a move is settled. -/
theorem fix (hm : Move w (w.fix p (Engine.outcome fulfil v))) :
    Active w ((w.fix p (Engine.outcome fulfil v)).observe p (.settled fulfil v)) :=
  Discipline.trans (.move hm rfl) (Discipline.passive (.quiet (.of_eq rfl rfl)))

/-- Its reactions run in turn. -/
theorem react (hrun : Runs Active run) (w : World) (reactions : List Reaction) :
    Active w ((reactions.forM (Engine.react run cx p · fulfil v)).after w) :=
  Conserves.forM (fun _ => .react hrun) w

/-- Settling a promise is one move, after which its reactions run. -/
theorem settle (hrun : Runs Active run)
    (hm : w.IsPending p → Move w (w.fix p (Engine.outcome fulfil v))) :
    Active w ((Engine.settle run cx p fulfil v).after w) := by
  cases ho : w.object? p with
  | none =>
    rw [Engine.after_of_error (Engine.run_settle_gone ho)]
    exact Discipline.refl w
  | some o =>
    by_cases hp : w.IsPending p
    · obtain ⟨o, reactions, ho, hk⟩ := id hp
      rw [Engine.after, Engine.run_settle ho hk]
      exact Discipline.trans (.fix (hm hp)) (.react hrun _ reactions)
    · rw [Engine.after_of_ok (Engine.run_settle_of_not_pending ho hp)]
      exact Discipline.refl w

/-- A promise that was to be settled is not pending afterwards, unless that was broken off. -/
theorem not_pending_settle (hrun : Runs Active run) (hr : Reachable w)
    (hm : w.IsPending p → Move w (w.fix p (Engine.outcome fulfil v)))
    (hb : Engine.Unbroken ((Engine.settle run cx p fulfil v).run w)) :
    ¬ ((Engine.settle run cx p fulfil v).after w).IsPending p := by
  cases ho : w.object? p with
  | none =>
    rw [Engine.run_settle_gone ho] at hb
    exact hb.elim
  | some o =>
    by_cases hp : w.IsPending p
    · obtain ⟨o, reactions, ho, hk⟩ := id hp
      rw [Engine.after, Engine.run_settle ho hk]
      have hmoves : Moves w ((w.fix p (Engine.outcome fulfil v)).observe p (.settled fulfil v)) :=
        (Relation.ReflTransGen.single (hm hp)).tail (.quiet (.of_eq rfl rfl))
      have hfixed : ¬ (w.fix p (Engine.outcome fulfil v)).IsPending p := by
        rintro ⟨o', r, ho', hk'⟩
        rw [World.object?_fix, if_pos rfl, ho] at ho'
        cases ho'
        cases fulfil with
        | true => cases hk'
        | false => cases hk'
      have hreact : Active _ ((reactions.forM (Engine.react run cx p · fulfil v)).after _) :=
        .react hrun ((w.fix p (Engine.outcome fulfil v)).observe p (.settled fulfil v)) reactions
      obtain ⟨hmoves, -⟩ := hreact (hr.moves hmoves)
      have hlt : p.index < (w.fix p (Engine.outcome fulfil v)).objects.next :=
        Store.lt_next_of_get? (s := w.objects) ho
      exact hmoves.not_pending hlt hfixed
    · rw [Engine.after_of_ok (Engine.run_settle_of_not_pending ho hp)]
      exact hp

end Active

/-! ## The work of a delivery -/

/-- The delivery of a wake, begun in the world `w`, is the innermost one, and what is to become of its event
is decided. -/
structure Within (w : World) (cx : ContextId) (wake : Wake) (w₁ : World) : Prop where
  moves : Moves w w₁
  delivering : w₁.delivering = (cx, wake) :: w.delivering
  errands : w₁.errands = w.errands
  underway : underway w₁.history = none :: underway w.history
  oneByOne : ∀ c, preparing c w.history = [] → OneByOne c w.history → OneByOne c w₁.history
  prompt : w.Prompt → w₁.Prompt

namespace Within

variable {w w₁ w₂ : World} {cx : ContextId} {wake : Wake}

/-- Within a delivery no other event is undecided. -/
theorem undecided (h : Within w cx wake w₁) : w₁.undecided = none := by
  rw [World.undecided, History.undecided, h.underway]
  rfl

/-- What is being prepared is what was before. -/
theorem preparing (h : Within w cx wake w₁) (c : ContextId) :
    preparing c w₁.history = preparing c w.history := by
  rw [preparing_of_underway h.underway, eventFor, Option.toList_none, List.append_nil,
    History.preparing]

/-- Within a delivery, moves that end what they begin stay within it. -/
theorem trans (h : Within w cx wake w₁) (hm : Moves w₁ w₂) (hr : Resumes w₁ w₂) :
    Within w cx wake w₂ where
  moves := h.moves.trans hm
  delivering := hr.delivering.trans h.delivering
  errands := hr.errands.trans h.errands
  underway := hr.underway.trans h.underway
  oneByOne c hp ho := hr.oneByOne c ((h.preparing c).trans hp) (h.oneByOne c hp ho)
  prompt hp := hr.prompt (h.prompt hp)

/-- So do active ones. -/
theorem active (h : Within w cx wake w₁) (hr : Reachable w) (ha : Active w₁ w₂) :
    Within w cx wake w₂ :=
  let ⟨hm, hresumes⟩ := ha (hr.moves h.moves)
  h.trans hm hresumes

/-- A delivery of something that is no event begins. -/
theorem begin (hr : Reachable w) {rest : List Wake} (hq : (w.loopOf cx).queue = wake :: rest) (hw : wake.event? = none) :
    Within w cx wake ((w.pop cx wake rest).begin cx wake) := by
  have ht : w.take cx = some (wake, w.pop cx wake rest) := by rw [World.take, hq]
  have ha : Aside (w.pop cx wake rest) ((w.pop cx wake rest).begin cx wake) :=
    .begins (World.begins ..)
  have hunderway : History.underway (w.pop cx wake rest).history =
      none :: History.underway w.history := by
    change (wake.event?.map fun event => (cx, event)) :: History.underway w.history = _
    rw [hw, Option.map_none]
  refine ⟨.single (.take ht), ha.delivering, ha.errands, ha.underway.trans hunderway,
    fun c _ ho => (ha.oneByOne c).mpr ?_, fun hp => hp.move hr (.take ht) ha.errands⟩
  cases wake with
  | event token args => cases hw
  | settle slot status v => exact ho
  | script label body => exact ho

/-- The delivery ends. -/
theorem finish (h : Within w cx wake w₁) (hr : Reachable w) {broke : Bool}
    (hs : broke = false → ∀ slot status v, wake = .settle slot status v →
      ∃ p, .unparked ⟨cx, slot⟩ p ∈ w₁.history ∧ ¬ w₁.IsPending p) :
    Moves w (w₁.finish cx wake broke) ∧ Resumes w (w₁.finish cx wake broke) := by
  have hd : (w₁.finish cx wake broke).delivering = w₁.delivering.tail := rfl
  have hu : History.underway (w₁.finish cx wake broke).history = (History.underway w₁.history).tail :=
    rfl
  rw [h.delivering, List.tail_cons] at hd
  rw [h.underway, List.tail_cons] at hu
  have hm : Move w₁ (w₁.finish cx wake broke) := .finish h.delivering h.undecided hs
  exact ⟨h.moves.tail hm, hd, h.errands, hu, h.oneByOne,
    fun hp => (h.prompt hp).move (hr.moves h.moves) hm rfl⟩

end Within

/-- What the work of a delivery has done when it ends, in the world `w₀` in which it began: the delivery
is still the innermost, and a settlement that was not broken off has settled its promise. -/
structure Worked (w : World) (cx : ContextId) (wake : Wake) (m : Engine Unit) (w₀ : World) :
    Prop where
  within : Within w cx wake (m.after w₀)
  settled : Engine.Unbroken (m.run w₀) → ∀ slot status v, wake = .settle slot status v →
    ∃ p, .unparked ⟨cx, slot⟩ p ∈ (m.after w₀).history ∧ ¬ (m.after w₀).IsPending p

namespace Worked

variable {w w₀ w₁ : World} {cx : ContextId} {wake : Wake} {m m' : Engine Unit}

/-- Work that ends as other work does. -/
theorem congr (h : Worked w cx wake m w₀) (hm : m'.run w₁ = m.run w₀) : Worked w cx wake m' w₁ := by
  have ha : m'.after w₁ = m.after w₀ := by rw [Engine.after, hm, Engine.after]
  constructor
  case within => exact ha ▸ h.within
  case settled =>
    rw [ha, hm]
    exact h.settled

/-- Work that was broken off. -/
theorem broken {stop : Stop} (hs : ∀ v, stop ≠ .thrown v) (hm : m.run w₀ = .error stop w₁)
    (h : Within w cx wake w₁) : Worked w cx wake m w₀ := by
  have ha : m.after w₀ = w₁ := Engine.after_of_error hm
  constructor
  case within => rwa [ha]
  case settled =>
    rw [hm]
    intro h
    cases stop with
    | thrown v => exact absurd rfl (hs v)
    | _ => exact h.elim

/-- Work on a wake that settles nothing. -/
theorem of_active (h : Within w cx wake w₁) (hr : Reachable w) (ha : Active w₁ (m.after w₀))
    (hw : ∀ slot status v, wake ≠ .settle slot status v) : Worked w cx wake m w₀ :=
  ⟨h.active hr ha, fun _ slot status v he => absurd he (hw slot status v)⟩

/-- The settlement of a promise that was taken out of its slot. -/
theorem settle {n : Nat} (hrun : Runs Active (Session.runner n)) (hr : Reachable w)
    {slot status v} (h : Within w cx (.settle slot status v) w₀) {p id registry fulfil x}
    (hp : .unparked ⟨cx, slot⟩ p ∈ w₀.history) (hi : .installed cx id registry ∈ w₀.history)
    (hs : Settles w₀ cx registry status v (Engine.outcome fulfil x)) :
    Worked w cx (.settle slot status v) (Engine.settle (Session.runner n) cx p fulfil x) w₀ := by
  have hm (hpend : w₀.IsPending p) : Move w₀ (w₀.fix p (Engine.outcome fulfil x)) :=
    .settle h.delivering hp hpend hi hs
  have hr₀ := hr.moves h.moves
  have hsettle : Active w₀ ((Engine.settle (Session.runner n) cx p fulfil x).after w₀) :=
    .settle hrun hm
  obtain ⟨hm', hresumes⟩ := hsettle hr₀
  refine ⟨h.trans hm' hresumes, fun hb slot' status' v' he => ?_⟩
  cases he
  exact ⟨p, hm'.history.subset hp, Active.not_pending_settle hrun hr₀ hm hb⟩

end Worked

/-! ## Settlements -/

/-- What is held has no bearing on which slot is emptied. -/
theorem World.unpark_held (w : World) (held : List (List Ref)) (cx : ContextId)
    (id : InstallationId) (slot : Nat) :
    World.unpark { w with held } cx id slot = { w.unpark cx id slot with held } := by
  have hparked : World.parked? { w with held } id slot = w.parked? id slot := rfl
  rw [World.unpark, World.unpark, hparked]
  cases w.parked? id slot <;> rfl

namespace Engine

variable {w : World} {cx : ContextId}

/-- Without a bridge a delivery aborts. -/
theorem run_bridge_none (h : w.bridge? cx = none) : (bridge cx).run w =
    .error (.aborted ("bridge is not installed on context #" ++ toString cx.index)) w := by
  rw [bridge, run_get_bind, h]
  rfl

/-- To hold is to change what is held. -/
theorem exists_run_hold (refs : List Ref) (w : World) :
    ∃ held, (hold refs).run w = .ok () { w with held } :=
  ⟨_, rfl⟩

/-- A settlement takes the promise out of its slot, if there is one. -/
theorem run_unpark {id i} (h : w.bridge? cx = some (id, i)) (slot : Nat) (held : List (List Ref)) :
    ∃ held', (unpark cx slot).run { w with held } = match w.parked? id slot with
      | some p => .ok (i.registry, p) { w.unpark cx id slot with held := held' }
      | none => .error (.aborted ("no pending foreign future in slot " ++ toString slot))
          { w.unpark cx id slot with held := held' } := by
  obtain ⟨held₁, h₁⟩ := exists_run_hold [.installation id] { w with held }
  obtain ⟨held₂, h₂⟩ := exists_run_hold (refsOf (fun promise => [.object promise]) (w.parked? id slot))
    { w with held := held₁ }
  have hbridge : World.bridge? { w with held } cx = some (id, i) := h
  have hget (w : World) : (get : Engine World).run w = .ok w w := rfl
  have hparked : World.parked? { w with held := held₁ } id slot = w.parked? id slot := rfl
  have hmodify : (modify (·.unpark cx id slot) : Engine Unit).run { w with held := held₂ } =
      .ok () (World.unpark { w with held := held₂ } cx id slot) := rfl
  refine ⟨held₂, ?_⟩
  refine (run_bind_of_ok (run_bridge hbridge)).trans ((run_bind_of_ok h₁).trans ?_)
  refine (run_bind_of_ok (hget _)).trans ((run_bind_of_ok h₂).trans ?_)
  refine (run_bind_of_ok hmodify).trans ?_
  rw [World.unpark_held, hparked]
  cases w.parked? id slot <;> rfl

/-- **Settling a promise for its deferred** gives it the value as it was converted, or why it did not
convert, unless the conversion breaks off. -/
theorem run_settleFuture (n : Nat) (cx : ContextId) (registry : Registry) (p : ObjectId)
    (status : DeferredStatus) (v : NativeValue) (w : World) :
    let w' := (toForeign (Session.runner n) cx registry v).after w
    (∃ fulfil x, Settles w' cx registry status v (outcome fulfil x) ∧
      (settleFuture (Session.runner n) cx registry p status v).run w =
        (settle (Session.runner n) cx p fulfil x).run w') ∨
    ∃ stop, (∀ reason, stop ≠ .thrown reason) ∧
      (settleFuture (Session.runner n) cx registry p status v).run w = .error stop w' := by
  intro w'
  have hattempt := run_attempt (toForeign (Session.runner n) cx registry v) w
  cases hc : (toForeign (Session.runner n) cx registry v).run w with
  | ok result w₁ =>
    have hw : w' = w₁ := after_of_ok hc
    rw [hc] at hattempt
    rw [hw]
    cases result with
    | ok foreign =>
      have hs : Settles w₁ cx registry status v (outcome (decide (status = .resolved)) foreign) := by
        have h : Settles w₁ cx registry status v _ := .converted hc
        simpa only [outcome, decide_eq_true_eq] using h
      exact .inl ⟨_, _, hs, run_bind_of_ok hattempt⟩
    | error e =>
      have hs : Settles w₁ cx registry status v (outcome false _) := .described hc
      exact .inl ⟨_, _, hs, run_bind_of_ok hattempt⟩
  | error stop w₁ =>
    have hw : w' = w₁ := after_of_error hc
    rw [hc] at hattempt
    rw [hw]
    cases stop with
    | thrown reason =>
      have hs : Settles w₁ cx registry status v (outcome false _) := .thrown hc
      exact .inl ⟨_, _, hs, run_bind_of_ok hattempt⟩
    | _ => exact .inr ⟨_, by simp, run_bind_of_ok hattempt⟩

end Engine

namespace Worked

variable {n : Nat} {w w₁ : World} {cx : ContextId}

/-- A promise that was taken out of its slot is settled with the outcome of its deferred. -/
theorem settleFuture (hrun : Runs Active (Session.runner n)) (hr : Reachable w) {slot status v}
    (h : Within w cx (.settle slot status v) w₁) {p id registry}
    (hp : .unparked ⟨cx, slot⟩ p ∈ w₁.history) (hi : .installed cx id registry ∈ w₁.history) :
    Worked w cx (.settle slot status v)
      (Engine.settleFuture (Session.runner n) cx registry p status v) w₁ := by
  let convert := Engine.toForeign (Session.runner n) cx registry v
  obtain ⟨hm, hresumes⟩ : Moves w₁ (convert.after w₁) ∧ Resumes w₁ (convert.after w₁) :=
    Conserves.toForeign (R := Active) (answers n) w₁ (hr.moves h.moves)
  have h' := h.trans hm hresumes
  obtain ⟨fulfil, x, hs, hsettle⟩ | ⟨stop, hstop, hbroken⟩ :=
    Engine.run_settleFuture n cx registry p status v w₁
  · have hp' := hm.history.subset hp
    have hi' := hm.history.subset hi
    exact (settle hrun hr h' hp' hi' hs).congr hsettle
  · exact broken hstop hbroken h'

/-- **A settlement** takes its promise out of the slot and settles it. -/
theorem deliverSettlement (hrun : Runs Active (Session.runner n)) (hr : Reachable w)
    {slot status v rest} (hq : (w.loopOf cx).queue = .settle slot status v :: rest)
    (held : List (List Ref)) : Worked w cx (.settle slot status v)
      (Engine.deliverSettlement (Session.runner n) cx slot status v)
      { w.pop cx (.settle slot status v) rest with held } := by
  have hbegin := Within.begin hr hq rfl
  generalize hw : w.pop cx (.settle slot status v) rest = wp at hbegin ⊢
  have hheld {w' : World} (hbegin : Within w cx (.settle slot status v) w')
      (held : List (List Ref)) : Within w cx (.settle slot status v) { w' with held } :=
    hbegin.trans (.single (.quiet (.of_eq rfl rfl))) (.of_course rfl id)
  cases hb : wp.bridge? cx with
  | none =>
    have h : wp.begin cx (.settle slot status v) = wp := by rw [World.begin, hb]
    rw [h] at hbegin
    have hgone : World.bridge? { wp with held } cx = none := hb
    have hgone := Engine.run_bridge_none hgone
    exact broken (by simp) (Engine.run_bind_of_error (Engine.run_bind_of_error hgone))
      (hheld hbegin held)
  | some b =>
    obtain ⟨id, i⟩ := b
    have h : wp.begin cx (.settle slot status v) = wp.unpark cx id slot := by
      rw [World.begin, hb]
    rw [h] at hbegin
    obtain ⟨held', hunpark⟩ := Engine.run_unpark hb slot held
    cases hp : wp.parked? id slot with
    | none =>
      rw [hp] at hunpark
      exact broken (by simp) (Engine.run_bind_of_error hunpark) (hheld hbegin held')
    | some p =>
      rw [hp] at hunpark
      have hpop : wp.bridge? cx = w.bridge? cx := by
        rw [← hw]
        exact World.bridge?_congr (World.data?_pop ..) rfl
      obtain ⟨hdata, hi⟩ := World.bridge?_eq_some.1 (hpop.symm.trans hb)
      obtain ⟨i', hi', hin⟩ := hr.bridged.installed hdata
      cases Option.some.inj (hi.symm.trans hi')
      have hin' := hbegin.moves.history.subset hin
      have hout : .unparked ⟨cx, slot⟩ p ∈ (wp.unpark cx id slot).history := by
        rw [World.unpark, hp]
        exact List.mem_cons_self ..
      exact (settleFuture hrun hr (hheld hbegin held') hout hin').congr
        (Engine.run_bind_of_ok hunpark)

end Worked

/-! ## Events -/

namespace Engine

variable {w : World} {cx : ContextId}

/-- A callback is looked up by its slot, while it is subscribed. -/
theorem run_callback? {id i} (h : w.installation? id = some i) (slot : Nat) :
    (callback? id slot).run w = .ok (if w.isSubscribed ⟨id, slot⟩ then
      (i.subscriptions.find? (·.1 = slot)).map (·.2) else none) w := by
  have hget : (get : Engine World).run w = .ok w w := rfl
  rw [callback?, run_bind_of_ok hget, h]
  cases w.isSubscribed ⟨id, slot⟩ <;> rfl

/-- The recipient of an event is the callback in the slot of its token, while it is subscribed. -/
theorem run_recipient? {id i} (h : w.bridge? cx = some (id, i)) (token : Token) :
    ∃ held, (recipient? cx token).run w = .ok (if w.isSubscribed ⟨id, token.slot⟩ then
      (i.subscriptions.find? (·.1 = token.slot)).map fun e => (i.registry, e.2) else none)
      { w with held } := by
  obtain ⟨held, h₁⟩ := exists_run_hold [.installation id] w
  have hi : World.installation? { w with held } id = some i := (World.bridge?_eq_some.1 h).2
  have hsub : World.isSubscribed { w with held } ⟨id, token.slot⟩ =
    w.isSubscribed ⟨id, token.slot⟩ := rfl
  rw [recipient?, run_bind_of_ok (run_bridge h), run_bind_of_ok h₁,
    run_bind_of_ok (run_callback? hi token.slot), hsub]
  cases w.isSubscribed ⟨id, token.slot⟩ with
  | false => exact ⟨held, rfl⟩
  | true =>
    cases i.subscriptions.find? (·.1 = token.slot) with
    | none => exact ⟨held, rfl⟩
    | some e => exact ⟨_, rfl⟩

/-- What an attempt to prepare an event leads to. -/
def verdict : EStateM.Result Stop World (Option (ForeignValue × List ForeignValue)) → Verdict
  | .ok (some (callback, values)) _ => .called callback values
  | .ok none _ => .unheard
  | .error stop _ => .refused stop

/-- The arguments of a subscriber are prepared fairly. -/
theorem fair_of_arguments {n : Nat} {token args id registry callback} (hr : Reachable w)
    (hi : .installed cx id registry ∈ w.history)
    (hs : .subscribed ⟨id, token.slot⟩ callback ∈ w.history) :
    Fair ((do return some (callback, ← eventArguments (Session.runner n) cx registry args) :
        Engine (Option (ForeignValue × List ForeignValue))).after w) cx token args
      (verdict ((do return some (callback, ← eventArguments (Session.runner n) cx registry args) :
        Engine (Option (ForeignValue × List ForeignValue))).run w)) := by
  let convert := eventArguments (Session.runner n) cx registry args
  obtain ⟨hmoves, -⟩ : Moves w (convert.after w) ∧ _ ∧ _ :=
    Conserves.eventArguments (R := Passive) (answers n) w hr
  have hi' := hmoves.history.subset hi
  have hs' := hmoves.history.subset hs
  cases hv : convert.run w with
  | ok values w' =>
    rw [after_of_ok hv] at hi' hs'
    rw [after, run_bind_of_ok hv]
    exact .called hi' hs' hv
  | error stop w' =>
    rw [after_of_error hv] at hi'
    rw [after, run_bind_of_error hv]
    exact .refused hi' hv

/-- Events are prepared fairly. -/
theorem fair_prepareEvent {n : Nat} {token args} (hr : Reachable w) :
    Fair ((prepareEvent (Session.runner n) cx token args).after w) cx token args
      (verdict ((prepareEvent (Session.runner n) cx token args).run w)) := by
  cases hb : w.bridge? cx with
  | none =>
    have hrun : (prepareEvent (Session.runner n) cx token args).run w = .error _ w :=
      run_bind_of_error (run_bind_of_error (run_bridge_none hb))
    rw [after, hrun]
    exact .unbridged hb
  | some b =>
    obtain ⟨id, i⟩ := b
    obtain ⟨held, hrecipient⟩ := run_recipient? hb token
    have hb' : World.bridge? { w with held } cx = some (id, i) := hb
    by_cases hs : w.isSubscribed ⟨id, token.slot⟩
    · rw [if_pos hs] at hrecipient
      cases hf : i.subscriptions.find? (·.1 = token.slot) with
      | none =>
        rw [hf] at hrecipient
        have hrun : (prepareEvent (Session.runner n) cx token args).run w = .ok none _ :=
          run_bind_of_ok hrecipient
        rw [after, hrun]
        refine .unheard hb' (.inr fun e he => ?_)
        simpa using List.find?_eq_none.1 hf e he
      | some e =>
        rw [hf] at hrecipient
        obtain ⟨hdata, hi⟩ := World.bridge?_eq_some.1 hb
        obtain ⟨i', hi', hin⟩ := hr.bridged.installed hdata
        cases Option.some.inj (hi.symm.trans hi')
        have hslot : e.1 = token.slot := by simpa using List.find?_some hf
        have hsub := hr.slotted.subscription hi (List.mem_of_find?_eq_some hf)
        rw [hslot] at hsub
        have hr' : Reachable { w with held } := hr.moves (.single (.quiet (.of_eq rfl rfl)))
        have hrun : (prepareEvent (Session.runner n) cx token args).run w =
            (do return some (e.2, ← eventArguments (Session.runner n) cx i.registry args) :
              Engine (Option (ForeignValue × List ForeignValue))).run { w with held } :=
          run_bind_of_ok hrecipient
        rw [after, hrun]
        exact fair_of_arguments hr' hin hsub
    · rw [if_neg hs] at hrecipient
      have hrun : (prepareEvent (Session.runner n) cx token args).run w = .ok none _ :=
        run_bind_of_ok hrecipient
      rw [after, hrun]
      exact .unheard hb' (.inl (Bool.not_eq_true _ ▸ hs))

section

variable {run : Runner} {wake : Wake}

/-- **What a delivery does after its work**: a throw that leaves it is reported. -/
theorem run_runDelivery (w : World) : (runDelivery run cx wake).run w =
    match (runWake run cx wake).run w with
    | .error (.thrown v) w' => (do hold v.refs; reportException cx v : Engine Unit).run w'
    | result => result := by
  have hattempt := run_attempt (runWake run cx wake) w
  cases h : (runWake run cx wake).run w with
  | ok u w' =>
    rw [h] at hattempt
    exact run_bind_of_ok hattempt
  | error stop w' =>
    rw [h] at hattempt
    cases stop with
    | _ => exact run_bind_of_ok hattempt

/-- So a delivery comes from its work to its end by a report at most. -/
theorem after_runDelivery {R : World → World → Prop} [IsPreorder World R]
    (hreport : ∀ v, Conserves R (do hold v.refs; reportException cx v : Engine Unit)) (w : World) :
    R ((runWake run cx wake).after w) ((runDelivery run cx wake).after w) := by
  rw [after, after, run_runDelivery]
  cases (runWake run cx wake).run w with
  | ok u w' => exact refl_of R w'
  | error stop w' =>
    cases stop with
    | thrown v => exact hreport v w'
    | _ => exact refl_of R w'

/-- A delivery that was not broken off did its work. -/
theorem unbroken_of_runDelivery (h : Unbroken ((runDelivery run cx wake).run w)) :
    Unbroken ((runWake run cx wake).run w) := by
  rw [run_runDelivery] at h
  cases hw : (runWake run cx wake).run w with
  | ok u w' => trivial
  | error stop w' =>
    rw [hw] at h
    cases stop with
    | thrown v => trivial
    | _ => exact h

end

end Engine

namespace Worked

variable {n : Nat} {w : World} {cx : ContextId}

/-- **An event** is decided, and its subscriber is called. -/
theorem deliverEvent (hrun : Runs Active (Session.runner n)) (hr : Reachable w) {token args rest}
    (hq : (w.loopOf cx).queue = .event token args :: rest) (held : List (List Ref)) :
    Worked w cx (.event token args) (Engine.deliverEvent (Session.runner n) cx token args)
      { w.pop cx (.event token args) rest with held } := by
  generalize hw₀ : ({ w.pop cx (.event token args) rest with held } : World) = w₀
  have ht : w.take cx = some (.event token args, w.pop cx (.event token args) rest) := by
    rw [World.take, hq]
  have hmoves₀ : Moves w w₀ := by
    rw [← hw₀]
    exact .tail (.single (.take ht)) (.quiet (.of_eq rfl rfl))
  have hunderway : underway w₀.history = some (cx, token, args) :: underway w.history := by
    rw [← hw₀]
    rfl
  let prepare := Engine.prepareEvent (Session.runner n) cx token args
  have hr₀ := hr.moves hmoves₀
  obtain ⟨hmoves₁, hcourse, hprompt⟩ : Moves w₀ (prepare.after w₀) ∧
      (prepare.after w₀).course = w₀.course ∧ (w₀.Prompt → (prepare.after w₀).Prompt) :=
    Conserves.prepareEvent (R := Passive) (answers n) w₀ hr₀
  simp only [World.course, Prod.mk.injEq] at hcourse
  obtain ⟨hd, he, hu, ho⟩ := hcourse
  generalize hv : Engine.verdict (prepare.run w₀) = verdict
  have hfair : Fair (prepare.after w₀) cx token args verdict := hv ▸ Engine.fair_prepareEvent hr₀
  have hhear : Move (prepare.after w₀) ((prepare.after w₀).hear cx token args verdict) :=
    .hear (undecided_eq_some.2 ⟨_, hu.trans hunderway⟩) hfair
  have hwithin : Within w cx (.event token args) ((prepare.after w₀).hear cx token args verdict) := by
    constructor
    case moves => exact (hmoves₀.trans hmoves₁).tail hhear
    case delivering =>
      refine hd.trans ?_
      rw [← hw₀]
      rfl
    case errands =>
      refine he.trans ?_
      rw [← hw₀]
      rfl
    case underway =>
      change none :: (underway (prepare.after w₀).history).tail = _
      rw [hu, hunderway, List.tail_cons]
    case oneByOne =>
      -- nothing else was being prepared when the event was taken
      intro c hp hone
      refine (congrFun ho c).mpr ?_
      rw [← hw₀]
      exact ⟨fun hc => hc ▸ hp, hone⟩
    case prompt =>
      have htake : w.Prompt → w₀.Prompt := fun hp => by
        have hpop := hp.move hr (.take ht) rfl
        rw [← hw₀]
        exact hpop
      exact fun hp => (hprompt (htake hp)).move (hr₀.moves hmoves₁) hhear rfl
  have hattempt := Engine.run_attempt prepare w₀
  -- the rest of the delivery is an active action on the world in which the event was decided
  suffices h : Active ((prepare.after w₀).hear cx token args verdict)
      ((Engine.deliverEvent (Session.runner n) cx token args).after w₀) from
    .of_active hwithin hr h (by simp)
  cases hp : prepare.run w₀ with
  | ok found w₁ =>
    rw [hp] at hattempt hv
    rw [Engine.after_of_ok hp]
    cases found with
    | none =>
      have hrun : (Engine.deliverEvent (Session.runner n) cx token args).run w₀ = .ok () _ :=
        Engine.run_bind_of_ok hattempt
      rw [Engine.after_of_ok hrun, ← hv]
      exact Discipline.refl _
    | some found =>
      let rest : Engine Unit := do
        let _ ← Engine.call (Session.runner n) cx found.1 .undefined found.2
      have hcall : Conserves Active rest := Conserves.bind (.call hrun) fun _ => .pure
      have hrest : (Engine.deliverEvent (Session.runner n) cx token args).run w₀ =
          rest.run (w₁.hear cx token args verdict) := hv ▸ Engine.run_bind_of_ok hattempt
      rw [Engine.after, hrest]
      exact hcall _
  | error stop w₁ =>
    rw [hp] at hattempt hv
    have hrun : (Engine.deliverEvent (Session.runner n) cx token args).run w₀ = .error stop _ :=
      Engine.run_bind_of_ok hattempt
    rw [Engine.after_of_error hp, Engine.after_of_error hrun, ← hv]
    exact Discipline.refl _

/-- Work after which something else is done that breaks nothing off. -/
theorem andThen {wake : Wake} {m m' : Engine Unit} {w₀ : World} (h : Worked w cx wake m w₀)
    (hr : Reachable w) (hm : Active (m.after w₀) (m'.after w₀))
    (hb : Engine.Unbroken (m'.run w₀) → Engine.Unbroken (m.run w₀)) : Worked w cx wake m' w₀ := by
  have hr₁ := hr.moves h.within.moves
  obtain ⟨hmoves, hresumes⟩ := hm hr₁
  refine ⟨h.within.trans hmoves hresumes, fun hb' slot status v he => ?_⟩
  obtain ⟨p, hp, hpend⟩ := h.settled (hb hb') slot status v he
  obtain ⟨d, hd⟩ := hr₁.promised.unparked hp
  exact ⟨p, hmoves.history.subset hp, hmoves.not_pending (hr₁.promised.lt hd) hpend⟩

/-- **The work of a delivery**, whatever its wake. -/
theorem runWake (hrun : Runs Active (Session.runner n)) (hr : Reachable w) {wake rest}
    (hq : (w.loopOf cx).queue = wake :: rest) (held : List (List Ref)) :
    Worked w cx wake (Engine.runWake (Session.runner n) cx wake)
      { w.pop cx wake rest with held } := by
  cases wake with
  | settle slot status v => exact deliverSettlement hrun hr hq held
  | event token args => exact deliverEvent hrun hr hq held
  | script label body =>
    have hbegin : Within w cx (.script label body) { w.pop cx (.script label body) rest with held } :=
      (Within.begin hr hq rfl).trans (.single (.quiet (.of_eq rfl rfl))) (.of_course rfl id)
    exact of_active hbegin hr (hrun.deliver _) (by simp)

/-- A throw that leaves a delivery breaks nothing off. -/
theorem runDelivery (hrun : Runs Active (Session.runner n)) (hr : Reachable w) {wake rest}
    (hq : (w.loopOf cx).queue = wake :: rest) (held : List (List Ref)) :
    Worked w cx wake (Engine.runDelivery (Session.runner n) cx wake)
      { w.pop cx wake rest with held } :=
  (runWake hrun hr hq held).andThen hr
    (Engine.after_runDelivery (fun _ => Conserves.bind .hold fun _ => .reportException) _)
    Engine.unbroken_of_runDelivery

end Worked

/-! ## Loops -/

namespace Engine

variable {run : Runner} {cx : ContextId} {wake : Wake} {w w₁ : World}

/-- A delivery ends in the world in which its work did. -/
theorem run_deliver_of_ok {u} (h : (runDelivery run cx wake).run { w with held := [] :: w.held } =
    .ok u w₁) : (deliver run cx wake).run w = .ok () (closeFrame.after (w₁.finish cx wake false)) := by
  have hattempt := run_attempt (runDelivery run cx wake) { w with held := [] :: w.held }
  rw [h] at hattempt
  have hopen : openFrame.run w = .ok () { w with held := [] :: w.held } := rfl
  exact (run_bind_of_ok hopen).trans (run_bind_of_ok hattempt)

/-- A delivery that stops ends all the same. -/
theorem run_deliver_of_error {stop} (h : (runDelivery run cx wake).run
    { w with held := [] :: w.held } = .error stop w₁) :
    (deliver run cx wake).run w = .error stop (closeFrame.after (w₁.finish cx wake true)) := by
  have hattempt := run_attempt (runDelivery run cx wake) { w with held := [] :: w.held }
  rw [h] at hattempt
  have hopen : openFrame.run w = .ok () { w with held := [] :: w.held } := rfl
  exact (run_bind_of_ok hopen).trans (run_bind_of_ok hattempt)

/-- Without a queue nothing is delivered. -/
theorem run_deliverNext_nil (hq : (w.loopOf cx).queue = []) :
    (deliverNext run cx).run w = .ok false w := by
  rw [deliverNext, run_get_bind, World.take, hq]
  rfl

/-- The next delivery is that of the first wake. -/
theorem run_deliverNext {rest} (hq : (w.loopOf cx).queue = wake :: rest) :
    (deliverNext run cx).run w =
      (deliver run cx wake >>= fun _ => pure true).run (w.pop cx wake rest) := by
  rw [deliverNext, run_get_bind, World.take, hq]
  rfl

/-- However its work ended, a delivery ends with its registration and its frame. -/
theorem after_deliverNext {rest} (hq : (w.loopOf cx).queue = wake :: rest) :
    let start := { w.pop cx wake rest with held := [] :: w.held }
    ∃ broke, (deliverNext run cx).after w =
      closeFrame.after (((runDelivery run cx wake).after start).finish cx wake broke) := by
  intro start
  cases hr : (runDelivery run cx wake).run start with
  | ok u w₁ =>
    refine ⟨false, ?_⟩
    rw [after_of_ok hr, after, run_deliverNext hq, run_bind_of_ok (run_deliver_of_ok hr)]
    rfl
  | error stop w₁ =>
    refine ⟨true, ?_⟩
    rw [after_of_error hr, after, run_deliverNext hq, run_bind_of_error (run_deliver_of_error hr)]

end Engine

namespace Active

variable {n : Nat} {cx : ContextId}

/-- **A delivery** begins, does what its wake asks for and ends. -/
theorem deliver (hrun : Runs Active (Session.runner n)) {w : World} {wake rest}
    (hq : (w.loopOf cx).queue = wake :: rest) :
    Active w ((Engine.deliver (Session.runner n) cx wake).after (w.pop cx wake rest)) := by
  intro hr
  have hworked := Worked.runDelivery hrun hr hq ([] :: w.held)
  have hclose {w₁ : World} {broke : Bool} (h : Within w cx wake w₁)
      (hs : broke = false → ∀ slot status v, wake = .settle slot status v →
        ∃ p, .unparked ⟨cx, slot⟩ p ∈ w₁.history ∧ ¬ w₁.IsPending p) :
      Moves w (Engine.closeFrame.after (w₁.finish cx wake broke)) ∧
        Resumes w (Engine.closeFrame.after (w₁.finish cx wake broke)) := by
    obtain ⟨hmoves, hresumes⟩ := h.finish hr hs
    have hcf : Passive _ (Engine.closeFrame.after (w₁.finish cx wake broke)) :=
      Conserves.closeFrame _
    obtain ⟨hmoves', hcourse, hprompt⟩ := hcf (hr.moves hmoves)
    exact ⟨hmoves.trans hmoves', hresumes.trans (.of_course hcourse hprompt)⟩
  cases hm : (Engine.runDelivery (Session.runner n) cx wake).run
      { w.pop cx wake rest with held := [] :: w.held } with
  | ok u w₁ =>
    obtain ⟨hwithin, hs⟩ := hworked
    rw [hm] at hs
    rw [Engine.after_of_ok hm] at hwithin hs
    rw [Engine.after_of_ok (Engine.run_deliver_of_ok hm)]
    exact hclose hwithin fun _ => hs trivial
  | error stop w₁ =>
    obtain ⟨hwithin, -⟩ := hworked
    rw [Engine.after_of_error hm] at hwithin
    rw [Engine.after_of_error (Engine.run_deliver_of_error hm)]
    exact hclose hwithin nofun

end Active

namespace Conserves

variable {n : Nat} {cx : ContextId}

/-- Delivering the next wake ends the delivery that it begins. -/
theorem deliverNext (hrun : Runs Active (Session.runner n)) :
    Conserves Active (Engine.deliverNext (Session.runner n) cx) := by
  intro w
  cases hq : (w.loopOf cx).queue with
  | nil =>
    rw [Engine.after_of_ok (Engine.run_deliverNext_nil hq)]
    exact Discipline.refl w
  | cons wake rest =>
    have hdeliver := Active.deliver hrun hq
    rw [← Engine.after_bind_pure (fun _ => true)] at hdeliver
    rwa [Engine.after, Engine.run_deliverNext hq]

end Conserves

/-! ## Rounds -/

namespace Conserves

variable {R : World → World → Prop} [IsPreorder World R] {run : Runner} {cx : ContextId}

/-- Deliveries in a row. -/
theorem deliverMany (h : Conserves R (Engine.deliverNext run cx)) {count} :
    Conserves R (Engine.deliverMany run cx count) := by
  induction count with
  | zero => exact pure
  | succ count ih => exact bind h fun more => ite (fun _ => bind ih fun _ => pure) fun _ => pure

/-- A round makes as many deliveries as were queued. -/
theorem runPending (h : Conserves R (Engine.deliverNext run cx)) :
    Conserves R (Engine.runPending run cx) :=
  bind get fun _ => deliverMany h

/-- Rounds follow each other until the loop is idle. -/
theorem pump (h : Conserves R (Engine.deliverNext run cx)) {rounds} :
    Conserves R (Engine.pump run cx rounds) := by
  induction rounds with
  | zero => exact throw
  | succ rounds ih =>
    refine bind (runPending h) fun _ => bind get fun w => ite (fun _ => pure) fun _ => ?_
    exact bind h fun more => ite (fun _ => ih) fun _ => pure

/-- A loop runs until it is idle, or makes one round. -/
theorem runUntilIdle (h : Conserves R (Engine.deliverNext run cx)) {waits rounds} :
    Conserves R (Engine.runUntilIdle run cx waits rounds) :=
  ite (fun _ => pump h) fun _ => bind (runPending h) fun _ => bind get fun _ => pure

end Conserves

end Isthmus
