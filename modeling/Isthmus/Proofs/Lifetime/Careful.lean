import Mathlib
import Isthmus.Proofs.Lifetime.Exclusive

/-!
# Proofs/Lifetime/Careful — exclusive handles own their instances alone

Exclusive ownership is checked when a handle is bound.  Native code that is given the object later may keep
the instance or give it to another object.  This is the one way in which the instance gets another owner.

* `World.Careful` — what foreign code does on its own, where no object with an exclusive handle is passed on.
* `Guards.step` — a careful step of a session guards exclusive handles.
* `Session.ownAlone` — in a session of careful steps every bound exclusive handle is the one owner of its
  instance, which goes when the object does.
-/

namespace Isthmus

open Engine Session

/-! ## What foreign code does on its own -/

/-- The expression is a literal or a variable. -/
def Script.Expr.isAtom : Script.Expr → Bool
  | .undefined | .null | .bool _ | .number _ | .string _ | .variable _ => true
  | _ => false

namespace World

variable (w : World)

/-- The value that a literal or a variable stands for. -/
def value? : Script.Expr → Option ForeignValue
  | .undefined => some .undefined
  | .null => some .null
  | .bool b => some (.bool b)
  | .number n => some (.number n)
  | .string s => some (.string s)
  | .variable name => w.roots.values.find? name
  | _ => none

/-- **Foreign code makes and uses objects**, and passes on no object with an exclusive handle: native code
that keeps an argument or gives one back is called without such objects. -/
inductive Careful : Script.Action → Prop
  | createContext (name : String) (setup : Script.Setup) : Careful (.onContext (.create name setup))
  | useContext (name : String) : Careful (.onContext (.use name))
  | classOf (cls : ClassKey) : Careful (.onClass (.classOf cls))
  | hostClass (name : String) : Careful (.onClass (.hostClass name))
  | value {e} (he : e.isAtom) : Careful (.onObject (.eval e))
  | array {items} (hi : ∀ e ∈ items, e.isAtom) : Careful (.onObject (.eval (.array items)))
  | drop (name : String) : Careful (.onObject (.drop name))
  | get {obj} (ho : obj.isAtom) (name : String) : Careful (.onObject (.get obj name))
  | getValue {v} (hv : v.isAtom) (name : String) : Careful (.onObject (.getValue v name))
  | set {obj v} {name : String} (ho : obj.isAtom) (hv : v.isAtom)
      (h : ∀ id u, w.value? obj = some (.object id) → w.value? v = some u → w.WritePasses w.Clear id name u) :
      Careful (.onObject (.set obj name v))
  | call {fn args} {receiver : Option Script.Expr} (hf : fn.isAtom) (hr : ∀ e ∈ receiver, e.isAtom)
      (ha : ∀ e ∈ args, e.isAtom)
      (h : ∀ f this us, w.value? fn = some f → receiver.elim (some .undefined) w.value? = some this →
        args.mapM w.value? = some us → w.CallPasses w.Clear f this us) :
      Careful (.onObject (.call fn receiver args))
  | callMethod {obj args} {name : String} (ho : obj.isAtom) (ha : ∀ e ∈ args, e.isAtom)
      (h : ∀ id us, w.value? obj = some (.object id) → args.mapM w.value? = some us →
        w.MethodPasses w.Clear id name us) :
      Careful (.onObject (.callMethod obj name args))
  /-- A class constructor takes no notice of its arguments, other functions may. -/
  | construct {cls args} (hc : cls.isAtom) (ha : ∀ e ∈ args, e.isAtom)
      (h : ∀ c us code data, w.value? cls = some c → args.mapM w.value? = some us →
        w.code? c = some (code, data) → (∀ key, code ≠ .member key .construct) → ∀ u ∈ us, w.Clear u) :
      Careful (.onObject (.construct cls args))

end World

/-- Each step of a session is careful in the world in which it starts. -/
def Session.Careful (w : World) : List Script.Step → Prop
  | [] => True
  | s :: ss => w.Careful s.action ∧ Careful (step w s).2 ss

/-! ## Atoms -/

namespace Engine

variable {α β : Type} {w : World} {run : Runner} {frame : Frame}

/-- If the action comes to its end it has done no more than to hold something, and what it gives is as
said. -/
def Gets (Q : α → Prop) (m : Engine α) (w : World) : Prop :=
  ∀ a w', m.run w = .ok a w' → (∃ held, w' = { w with held }) ∧ Q a

namespace Gets

variable {P : α → Prop} {Q : β → Prop} {m : Engine α}

/-- What is given is got. -/
theorem pure {a : α} (h : P a) : Gets P (Pure.pure a) w := by
  intro b w' hr
  cases hr
  exact ⟨⟨_, rfl⟩, h⟩

/-- What is got may be used to get more, while more is held. -/
theorem bind {f : α → Engine β} (hm : Gets P m w) (hf : ∀ a held, P a → Gets Q (f a) { w with held }) :
    Gets Q (m >>= f) w := by
  intro b w' h
  obtain ⟨a, w₁, ha, hb⟩ := bind_ok h
  obtain ⟨⟨held, rfl⟩, hP⟩ := hm a w₁ ha
  obtain ⟨⟨held', rfl⟩, hQ⟩ := hf a held hP b w' hb
  exact ⟨⟨held', rfl⟩, hQ⟩

/-- An atom is evaluated to what it stands for. -/
theorem eval {e : Script.Expr} (he : e.isAtom) :
    Gets (fun v => w.value? e = some v) (Session.eval run frame e) w := by
  cases e <;> unfold Session.eval
  case «variable» name =>
    intro v w' h
    obtain ⟨a, w₁, ha, hkeep⟩ := bind_ok h
    obtain ⟨rfl, hfind⟩ := named_ok ha
    cases hkeep
    exact ⟨⟨_, rfl⟩, hfind⟩
  all_goals first
    | exact pure rfl
    | cases he

/-- So are atoms in a row. -/
theorem evalAll {es : List Script.Expr} (he : ∀ e ∈ es, e.isAtom) :
    Gets (fun vs => es.mapM w.value? = some vs) (Session.evalAll run frame es) w := by
  induction es generalizing w with
  | nil => exact pure rfl
  | cons e es ih =>
    obtain ⟨he, hes⟩ := List.forall_mem_cons.1 he
    unfold Session.evalAll
    refine bind (eval he) fun v held hv => bind (ih hes) fun vs held' hvs => pure ?_
    have hvs : es.mapM w.value? = some vs := hvs
    rw [List.mapM_cons, hv, Option.bind_eq_bind, Option.bind_some, hvs]
    rfl

/-- An atom that stands for an object. -/
theorem evalObject {e : Script.Expr} (he : e.isAtom) :
    Gets (fun id => w.value? e = some (.object id)) (Session.evalObject run frame e) w := by
  refine bind (eval he) fun v held hv => ?_
  split
  · exact pure hv
  · exact fun _ _ h => nomatch h

/-- An atom that may be missing. -/
theorem evalOr {e : Option Script.Expr} (he : ∀ a ∈ e, a.isAtom) :
    Gets (fun v => e.elim (some .undefined) w.value? = some v) (Session.evalOr run frame .undefined e) w := by
  cases e with
  | none => exact pure rfl
  | some e => exact eval (he e rfl)

end Gets

end Engine

namespace Stands

variable {x : Reserve} {run : Runner} {frame : Frame}

/-- To evaluate an atom leaves reservations alone. -/
theorem eval {e : Script.Expr} (he : e.isAtom) : Conserves x.Stands (Session.eval run frame e) := by
  cases e <;> unfold Session.eval
  case «variable» name => exact .bind .named fun _ => keep
  all_goals first
    | exact .pure
    | cases he

/-- So is evaluating atoms in a row. -/
theorem evalAll {es : List Script.Expr} (he : ∀ e ∈ es, e.isAtom) :
    Conserves x.Stands (Session.evalAll run frame es) := by
  induction es with
  | nil => exact .pure
  | cons e es ih =>
    obtain ⟨he, hes⟩ := List.forall_mem_cons.1 he
    unfold Session.evalAll
    exact .bind (eval he) fun _ => .bind (ih hes) fun _ => .pure

theorem evalObject {e : Script.Expr} (he : e.isAtom) :
    Conserves x.Stands (Session.evalObject run frame e) := by
  refine .bind (eval he) fun v => ?_
  split
  · exact .pure
  · exact .fail

theorem evalOr {e : Option Script.Expr} (he : ∀ a ∈ e, a.isAtom) :
    Conserves x.Stands (Session.evalOr run frame .undefined e) := by
  cases e with
  | none => exact .pure
  | some e => exact eval (he e rfl)

/-- To read a property shares what the getter gives. -/
theorem getValue (hrun : x.Runs run) {cx v name} : Conserves x.Stands (Engine.getValue run cx v name) := by
  unfold Engine.getValue
  split
  · exact getProperty hrun
  · exact .pure
  · exact .bind describe fun _ => raiseTypeError
  · exact .bind describe fun _ => raiseTypeError
  · exact .pure

/-! ## Contexts and names -/

theorem modifyRoots {f : Roots → Roots} (hf : ∀ r, (f r).natives = r.natives) :
    Conserves x.Stands (Session.modifyRoots f) :=
  .modify fun w hw => hw.of_eq (by rw [World.sharing, World.sharing, hf])

theorem assign {name v} : Conserves x.Stands (Session.assign name v) :=
  .bind .get fun _ => .bind (modifyRoots fun _ => rfl) fun _ => letGo

/-- To install a bridge shares nothing. -/
theorem install {registry cx} : Conserves x.Stands (Engine.install cx registry) := by
  have hinstall : Conserves x.Stands (modify (·.install cx registry) : Engine Unit) :=
    .modify fun _ hw => hw.of_eq rfl
  refine .bind .context fun c => .bind hinstall fun _ => ?_
  split
  · exact letGo
  · exact .pure

/-- To export classes shares nothing. -/
theorem exportClasses {cx target} : Conserves x.Stands (Engine.exportClasses cx target) :=
  .bind registry fun _ => .forM fun _ => .bind classOf fun _ => defineAll fun d hd => by
    rw [List.mem_singleton.1 hd]
    rfl

/-- To make a context shares nothing. -/
theorem createContext : Conserves x.Stands Session.createContext := by
  have hopen (global : ObjectId) : Conserves x.Stands (modify (·.openContext global) : Engine Unit) :=
    .modify fun _ hw => hw.openContext global
  have hconsole {cx} : Object.RunsNative { context := cx, kind := .function "error" .consoleError 0 } :=
    ⟨fun hk => by cases hk; rfl, nofun⟩
  exact .bind .get fun _ => .bind (allocate ⟨nofun, nofun⟩) fun _ => .bind (hopen _) fun _ =>
    .bind (allocate ⟨nofun, nofun⟩) fun _ => .bind (allocate hconsole) fun _ =>
      .bind (putOwn rfl) fun _ => .bind (putOwn rfl) fun _ => .pure

theorem createHost {registry} : Conserves x.Stands (Session.createHost registry) :=
  .bind createContext fun _ => .bind install fun _ => .bind (allocate ⟨nofun, nofun⟩) fun _ =>
    .bind modifyContext fun _ => .bind exportClasses fun _ => .bind .context fun _ =>
      .bind (defineAll fun d hd => by
        rw [List.mem_singleton.1 hd]
        rfl) fun _ => .pure

/-- To set up a host shares nothing, whether or not its configuration is right. -/
theorem host (result : Except Config.ConfigError Registry) : Conserves x.Stands (match result with
    | .error e => Session.failHost e
    | .ok registry => Session.createHost registry) := by
  split
  · exact .fail
  · exact createHost

theorem setUp {setup} : Conserves x.Stands (Session.setUp setup) := by
  refine .bind .get fun w => ?_
  dsimp only
  split
  · exact createContext
  · split
    · exact .fail
    · exact .bind createContext fun _ => .bind install fun _ => .pure
  · split
    · exact .bind .pure fun _ => host _
    · split
      · exact .bind .pure fun _ => host _
      · exact .bind .fail fun _ => host _

end Stands

/-! ## Steps -/

namespace World

variable {w : World} (held : List (List Ref))

/-! What a world holds for the running actions matters to none of this. -/

/-- What is held has no bearing on whether a value is clear. -/
theorem Clear.holding {v : ForeignValue} (h : w.Clear v) : { w with held }.Clear v := by
  induction h with
  | plain h => exact .plain h
  | object ho ha _ ih => exact .object ho ha ih

/-- It has no bearing on what a call passes on. -/
theorem CallPasses.holding {f receiver args} (h : w.CallPasses w.Clear f receiver args) :
    { w with held }.CallPasses { w with held }.Clear f receiver args :=
  fun code data hc hp v hv => (h code data hc hp v hv).holding held

/-- It has no bearing on which property is found. -/
theorem lookup_holding (id : ObjectId) (name : String) : { w with held }.lookup id name = w.lookup id name := by
  by_cases hid : id.index < w.objects.next
  · have hsame : ∀ id : ObjectId, id.index < w.objects.next → { w with held }.object? id = w.object? id :=
      fun _ _ => rfl
    exact lookup_congr hsame hid name
  · have hnone : w.object? id = none := by
      refine Option.eq_none_iff_forall_ne_some.2 fun o ho => hid (object?_lt ho)
    have hnone' : { w with held }.object? id = none := hnone
    rw [lookup, lookup, hnone, hnone']

/-- It has no bearing on what a method passes on. -/
theorem MethodPasses.holding {id name args} (h : w.MethodPasses w.Clear id name args) :
    { w with held }.MethodPasses { w with held }.Clear id name args := by
  have hpeek : { w with held }.peek id name = w.peek id name := by
    rw [peek, peek, lookup_holding]
    rfl
  rw [MethodPasses] at h ⊢
  rw [hpeek]
  cases hp : w.peek id name with
  | none =>
    rw [hp] at h
    exact fun v hv => (h v hv).holding held
  | some f =>
    rw [hp] at h
    exact CallPasses.holding held h

/-- It has no bearing on what is written. -/
theorem WritePasses.holding {id name v} (h : w.WritePasses w.Clear id name v) :
    { w with held }.WritePasses { w with held }.Clear id name v := by
  intro getter setter data enumerable own hl hp
  rw [lookup_holding] at hl
  exact (h getter setter data enumerable own hl hp).holding held

/-- Less may be passed on where less is clear. -/
theorem CallPasses.mono {P Q : ForeignValue → Prop} {f receiver args} (h : w.CallPasses P f receiver args)
    (hpq : ∀ v, P v → Q v) : w.CallPasses Q f receiver args :=
  fun code data hc hp v hv => hpq v (h code data hc hp v hv)

/-- Where all arguments are as said, so are those that are passed on. -/
theorem MethodPasses.of_forall {P : ForeignValue → Prop} {id name args} (h : ∀ v ∈ args, P v) :
    w.MethodPasses P id name args := by
  rw [MethodPasses]
  split
  · exact fun _ _ _ _ => h
  · exact h

/-- So it is with methods. -/
theorem MethodPasses.mono {P Q : ForeignValue → Prop} {id name args} (h : w.MethodPasses P id name args)
    (hpq : ∀ v, P v → Q v) : w.MethodPasses Q id name args := by
  rw [MethodPasses] at h ⊢
  split
  · next f hp =>
    rw [hp] at h
    exact CallPasses.mono h hpq
  · next hp =>
    rw [hp] at h
    exact fun v hv => hpq v (h v hv)

/-- It has no bearing on whether an action is careful. -/
theorem Careful.holding {a : Script.Action} (h : w.Careful a) : { w with held }.Careful a := by
  cases h with
  | createContext name setup => exact .createContext name setup
  | useContext name => exact .useContext name
  | classOf cls => exact .classOf cls
  | hostClass name => exact .hostClass name
  | value he => exact .value he
  | array hi => exact .array hi
  | drop name => exact .drop name
  | get ho name => exact .get ho name
  | getValue hv name => exact .getValue hv name
  | set ho hv h => exact .set ho hv fun id u hid hu => (h id u hid hu).holding held
  | call hf hr ha h => exact .call hf hr ha fun f this us hf ht hus => (h f this us hf ht hus).holding held
  | callMethod ho ha h => exact .callMethod ho ha fun id us hid hus => (h id us hid hus).holding held
  | construct hc ha h =>
    exact .construct hc ha fun c us code data hc hus hcode hother u hu =>
      (h c us code data hc hus hcode hother u hu).holding held

end World

namespace Guards

open World

variable {α : Type} {w : World} {frame : Frame} {n : Nat}

/-- An action that foreign code carries out on its own keeps exclusive instances exclusive. -/
theorem perform_now {a : Script.Action} (h : w.Careful a) :
    w.Guards ((perform (runner n) frame a).after w) := by
  have hruns (x : Reserve) := Stands.runner x n
  have hroots {f : Roots → Roots} (hf : ∀ r, (f r).natives = r.natives) :
      Conserves World.Guards (Session.modifyRoots f) := of_stands fun _ => Stands.modifyRoots hf
  have huse (cx : ContextId) : Conserves World.Guards (Session.useContext cx) :=
    of_stands fun _ => .modify fun _ hw => hw.of_eq rfl
  cases h with
  | createContext name setup =>
    refine Conserves.bind (of_stands fun _ => Stands.setUp) (fun _ => ?_) w
    exact .bind (hroots fun _ => rfl) fun _ => .bind (huse _) fun _ => .pure
  | useContext name => exact Conserves.bind .named (fun _ => .bind (huse _) fun _ => .pure) w
  | classOf cls => exact Conserves.bind (of_stands fun _ => Stands.classOf) (fun _ => .pure) w
  | hostClass name =>
    have hexports : Conserves World.Guards (Session.exportsOf frame.context) := by
      refine .bind .context fun c => ?_
      split
      · exact .pure
      · exact .fail
    exact Conserves.bind (.bind hexports fun _ => of_stands fun x => Stands.getProperty (hruns x))
      (fun _ => .pure) w
  | value he => exact Conserves.bind (of_stands fun _ => Stands.eval he) (fun _ => .pure) w
  | array hi =>
    refine Conserves.bind (of_stands fun x => ?_) (fun _ => .pure) w
    unfold Session.eval
    exact .bind (Stands.evalAll hi) fun _ => .bind Stands.createArray fun _ => .pure
  | drop name =>
    refine Conserves.bind .named (fun _ => ?_) w
    exact .bind (hroots fun _ => rfl) fun _ => .bind (of_stands fun _ => Stands.letGo) fun _ => .pure
  | get ho name =>
    exact Conserves.bind (of_stands fun _ => Stands.evalObject ho) (fun _ =>
      .bind (of_stands fun x => Stands.getProperty (hruns x)) fun _ => .pure) w
  | getValue hv name =>
    exact Conserves.bind (of_stands fun _ => Stands.eval hv) (fun _ =>
      .bind (of_stands fun x => Stands.getValue (hruns x)) fun _ => .pure) w
  | set ho hv h =>
    refine Conserves.bind_now (of_stands fun _ => Stands.evalObject ho) fun id w₁ hrun => ?_
    obtain ⟨⟨held, rfl⟩, hid⟩ := Gets.evalObject ho id w₁ hrun
    refine Conserves.bind_now (of_stands fun _ => Stands.eval hv) fun u w₂ hrun => ?_
    obtain ⟨⟨held, rfl⟩, hu⟩ := Gets.eval hv u w₂ hrun
    refine Conserves.step_now (.of_clear fun owner => ?_) fun _ w' _ => Conserves.pure w'
    exact Stands.setProperty_now (hruns _) fun getter setter data enumerable own hl hp =>
      ((h id u hid hu).holding held getter setter data enumerable own hl hp).apart
  | call hf hr ha h =>
    refine Conserves.bind_now (of_stands fun _ => Stands.eval hf) fun f w₁ hrun => ?_
    obtain ⟨⟨held, rfl⟩, hf'⟩ := Gets.eval hf f w₁ hrun
    refine Conserves.bind_now (of_stands fun _ => Stands.evalOr hr) fun this w₂ hrun => ?_
    obtain ⟨⟨held, rfl⟩, hthis⟩ := Gets.evalOr hr this w₂ hrun
    refine Conserves.bind_now (of_stands fun _ => Stands.evalAll ha) fun us w₃ hrun => ?_
    obtain ⟨⟨held, rfl⟩, hus⟩ := Gets.evalAll ha us w₃ hrun
    refine Conserves.step_now (.of_clear fun owner => ?_) fun _ w' _ => Conserves.pure w'
    exact Stands.call_now (hruns _) (((h f this us hf' hthis hus).holding held).mono fun _ => Clear.apart)
  | callMethod ho ha h =>
    refine Conserves.bind_now (of_stands fun _ => Stands.evalObject ho) fun id w₁ hrun => ?_
    obtain ⟨⟨held, rfl⟩, hid⟩ := Gets.evalObject ho id w₁ hrun
    refine Conserves.bind_now (of_stands fun _ => Stands.evalAll ha) fun us w₂ hrun => ?_
    obtain ⟨⟨held, rfl⟩, hus⟩ := Gets.evalAll ha us w₂ hrun
    refine Conserves.step_now (.of_clear fun owner => ?_) fun _ w' _ => Conserves.pure w'
    exact Stands.callMethod_now (hruns _) (((h id us hid hus).holding held).mono fun _ => Clear.apart)
  | construct hc ha h =>
    refine Conserves.bind_now (of_stands fun _ => Stands.eval hc) fun c w₁ hrun => ?_
    obtain ⟨⟨held, rfl⟩, hc'⟩ := Gets.eval hc c w₁ hrun
    refine Conserves.bind_now (of_stands fun _ => Stands.evalAll ha) fun us w₂ hrun => ?_
    obtain ⟨⟨held, rfl⟩, hus⟩ := Gets.evalAll ha us w₂ hrun
    refine Conserves.step_now (construct_now fun code data hcode hother u hu => ?_) fun _ w' _ => Conserves.pure w'
    exact (h c us code data hc' hus hcode hother u hu).holding held

/-- To close a frame guards what is reserved. -/
theorem closeFrame : Conserves World.Guards closeFrame := by
  refine of_stands fun x w hw => ?_
  have htail : x.Free w.held.tail.flatten := by
    have hheld := hw.held
    cases hf : w.held with
    | nil => exact Reserve.free_nil
    | cons frame outer =>
      rw [hf, List.flatten_cons, Reserve.free_append] at hheld
      exact hheld.2
  exact (hw.changeHeld htail).release _

/-- An action with a frame of its own. -/
theorem framed_now {m : Engine α}
    (h : World.Guards { w with held := [] :: w.held } (m.after { w with held := [] :: w.held })) :
    w.Guards ((framed m).after w) := by
  have hopen : w.Guards { w with held := [] :: w.held } :=
    .of_stands fun x hw => hw.changeHeld (by simpa using hw.held)
  refine Conserves.step_now hopen fun _ w₁ hrun => ?_
  cases hrun
  rw [← Engine.after_attempt] at h
  refine Conserves.step_now h fun result w₂ _ => ?_
  have hclose : Conserves World.Guards (do Engine.closeFrame; resume result) :=
    .bind closeFrame fun _ => .resume
  dsimp only
  split
  · refine Conserves.bind (of_stands fun x => ?_) (fun _ => hclose) w₂
    -- The thrown value goes over to the frame outside.
    refine .modify fun w hw => hw.changeHeld ?_
    have hheld := hw.held
    split
    · next frame outer rest hf =>
      rw [hf] at hheld
      simp only [List.flatten_cons, Reserve.free_append] at hheld ⊢
      exact ⟨hheld.1, ⟨Reserve.free_foreign _, hheld.2.1⟩, hheld.2.2⟩
    · exact hheld
  · exact hclose w₂

/-- **A careful step of a session** keeps exclusive instances exclusive. -/
theorem step {s : Script.Step} (h : w.Careful s.action) : w.Guards (Session.step w s).2 := by
  have hrun : World.Guards { w with held := [[]] } ((runStep (runner depthLimit)
      { context := w.current } s).after { w with held := [[]] }) := by
    refine Conserves.step_now (framed_now ?_) fun _ w₁ _ =>
      Conserves.bind (of_stands fun _ => Stands.finishJobs) (fun _ => .pure) w₁
    refine Conserves.step_now (perform_now (h.holding _)) fun answer w₁ _ => ?_
    split
    · exact Conserves.pure w₁
    · refine Conserves.bind .get (fun _ => ?_) w₁
      split
      · exact .bind (of_stands fun _ => Stands.assign) fun _ => .pure
      · exact .pure
  have hconclude : Conserves World.Guards conclude :=
    .bind closeFrame fun _ => of_stands fun _ => Stands.finishJobs
  have hopen : w.Guards { w with held := [[]] } :=
    .of_stands fun _ hw => hw.changeHeld Reserve.free_nil
  have hclear (w : World) : w.Guards { w with log := [], held := [] } :=
    .of_stands fun _ hw => (hw.changeHeld Reserve.free_nil).of_eq rfl
  rw [step_snd]
  exact trans_of World.Guards (trans_of World.Guards hopen hrun)
    (trans_of World.Guards (hconclude _) (hclear _))

/-- **Careful steps guard what is reserved**. -/
theorem steps {ss : List Script.Step} (h : Session.Careful w ss) : w.Guards (Session.steps w ss).2 := by
  induction ss generalizing w with
  | nil => exact refl_of World.Guards w
  | cons s ss ih => exact trans_of World.Guards (step h.1) (ih h.2)

end Guards

/-- The empty world holds no instance. -/
theorem World.exclusive_empty (plans : Plans) : World.Exclusive { plans } fun _ _ => False where
  known := nofun
  handles := nofun
  owners := nofun
  exclusive _ _ hy := nomatch hy
  instances _ _ hn := nomatch hn
  deferreds _ _ hd := nomatch hd
  queues _ _ hl := nomatch hl
  delivering _ he := nomatch he
  errands _ he := nomatch he
  jobs _ hj := nomatch hj
  natives _ he := nomatch he
  held := nofun
  objects _ _ ho := nomatch ho
  apart_lt := nofun
  apart := nofun

/-! ## Background work -/

namespace World

/-- The background work is the same. -/
def SameJobs (w w' : World) : Prop :=
  w'.jobs = w.jobs

instance : IsPreorder World SameJobs where
  refl _ := rfl
  trans _ _ _ h h' := h'.trans h

instance : Releases SameJobs where
  release := release_jobs

instance : Stocks SameJobs where
  stocked := by
    rintro _ _ ⟨_, _, _, rfl⟩
    rfl

end World

namespace SameJobs

open World

/-- Registering and queueing submit no jobs. -/
theorem posts {w w' : World} (h : Posts w w') : SameJobs w w' := by
  cases h <;> rfl

/-- Work that is done leaves no further work. -/
theorem runJob {job : Job} : Conserves SameJobs (Engine.runJob job) := by
  have hcomplete {id status v} : Conserves SameJobs (Engine.complete id status v) := by
    refine .now fun w => ?_
    split
    · exact Conserves.pure w
    · next done hd =>
      obtain ⟨w', more⟩ := done
      obtain ⟨d, -, -, -, hp⟩ := World.complete_posts hd
      have hsame : SameJobs (w.fulfil id { status, value := v } status v) w' := posts hp
      exact Conserves.operate_now (R := SameJobs) hsame fun _ => .pure
  have hemit {source event args} : Conserves SameJobs (Engine.emit source event args) := by
    refine .bind .get fun w => ?_
    split
    · exact .forM fun id => .operate fun w => World.fire_of_posts posts w id event args
    · exact .pure
  cases job with
  | image d work =>
    refine .bind .get fun w => ?_
    split
    · exact .bind .createBuffer fun _ => .bind .matrixValue fun _ => .bind hcomplete fun _ => .pure
    · exact .bind hcomplete fun _ => .pure
  | count id count =>
    refine .bind .get fun w => ?_
    split
    · refine .forM fun deed => .bind .get fun w => ?_
      split
      · cases deed with
        | reached v => exact .bind (.modify fun _ => rfl) fun _ w => release_jobs w _
        | announced a => exact hemit
      · exact .pure
    · exact .pure
  | complete d outcome =>
    cases outcome with
    | none => exact .pure
    | some o => exact .bind hcomplete fun _ => .pure
  | emit source event args => exact hemit

end SameJobs

/-- Background work that is to be done is done. -/
theorem Session.runJobs_jobs {w : World} {count : Nat} (h : w.jobs.length = count) :
    Gives (runJobs count) w fun _ w' => w'.jobs = [] := by
  induction count generalizing w with
  | zero => exact .pure (List.length_eq_zero_iff.1 h)
  | succ count ih =>
    refine .get ?_
    split
    · next hj => exact .pure hj
    · next job jobs hj =>
      have hcalm : Calm (Engine.runJob job) := Calm.runJob
      obtain ⟨_, w₁, hrun, -⟩ := hcalm w
      have hsame : w₁.jobs = w.jobs := Engine.after_of_ok hrun ▸ SameJobs.runJob w
      have hdone : (modify fun w => { w with jobs := w.jobs.tail }.sweep : Engine Unit).run w₁ =
          .ok () { w₁ with jobs := w₁.jobs.tail }.sweep := rfl
      refine .step hrun (.step hdone (ih ?_))
      have hjobs : { w₁ with jobs := w₁.jobs.tail }.sweep.jobs = w₁.jobs.tail := World.release_jobs _ _
      rw [hjobs, List.length_tail, hsame, h, Nat.add_sub_cancel]

/-- Between the steps of a session no background work is left. -/
theorem Session.step_jobs {w : World} (s : Script.Step) : (step w s).2.jobs = [] := by
  rw [step_snd]
  generalize (runStep (runner depthLimit) { context := w.current } s).after { w with held := [[]] } = w₁
  have hclose : closeFrame.run w₁ = .ok () { w₁ with held := w₁.held.tail }.sweep := rfl
  obtain ⟨_, w₂, hrun, hjobs⟩ := runJobs_jobs (w := { w₁ with held := w₁.held.tail }.sweep) rfl
  have hconclude : conclude.run w₁ = .ok () w₂ := (run_bind_of_ok hclose).trans hrun
  rw [Engine.after_of_ok hconclude]
  exact hjobs

/-- Between steps no job is left. -/
theorem Session.steps_jobs {w : World} (h : w.jobs = []) (ss : List Script.Step) :
    (steps w ss).2.jobs = [] := by
  induction ss generalizing w with
  | nil => exact h
  | cons s ss ih => exact ih (step_jobs s)

/-! ## Sessions -/

/-- Steps are careful one after the other. -/
theorem Session.careful_append {w : World} {ss ss' : List Script.Step} :
    Careful w (ss ++ ss') ↔ Careful w ss ∧ Careful (steps w ss).2 ss' := by
  induction ss generalizing w with
  | nil => exact ⟨fun h => ⟨trivial, h⟩, fun h => h.2⟩
  | cons s ss ih => exact (and_congr_right fun _ => ih).trans and_assoc.symm

/-- How exclusive handles own their instances at one moment of a session, and what becomes of the instances
until another. -/
structure World.OwnAlone (w w' : World) : Prop where
  /-- A bound exclusive handle is the one owner of its instance. -/
  alone : ∀ h y, w.handle? h = some y → y.state = .bound → y.ownership = .exclusive →
    w.count (.inst y.inst) = 1
  /-- When the object that carries the handle is gone, so is the instance. -/
  gone : ∀ h y obj, w.handle? h = some y → y.ownership = .exclusive → w.Carried h obj →
    w'.object? obj = none → w'.contains (.inst y.inst) = false
  /-- Objects that class constructors make carry such handles. -/
  made : ∀ n cx c args cls data obj u, w.code? c = some (.member cls .construct, data) →
    (Engine.construct (runner n) cx c args).run w = .ok (.object obj) u →
    ∃ h y, u.Carried h obj ∧ u.handle? h = some y ∧ y.state = .bound ∧ y.ownership = .exclusive

/-- **Exclusive handles own their instances alone**, in a session of careful steps: at any moment between the
steps, and for the rest of the session. -/
theorem Session.ownAlone (plans : Plans) {ss ss' : List Script.Step} (hc : Careful { plans } (ss ++ ss')) :
    (steps { plans } ss).2.OwnAlone (steps (steps { plans } ss).2 ss').2 := by
  obtain ⟨hc, hc'⟩ := careful_append.1 hc
  obtain ⟨-, hsettled⟩ := steps_edits (settled_start plans) ss
  obtain ⟨hedits, hend⟩ := steps_edits hsettled ss'
  have hjobs := steps_jobs (w := { plans }) rfl ss
  have hjobs' := steps_jobs hjobs ss'
  obtain ⟨owner, -, hw⟩ := Guards.steps hc _ (World.exclusive_empty plans)
  obtain ⟨owner', hle, hw'⟩ := Guards.steps hc' owner hw
  refine ⟨fun h y hy hb he => ?_, fun h y obj hy he hobj hgone => ?_, fun _ _ _ _ _ _ _ _ => World.constructed⟩
  · refine hw.count_eq_one (hw.exclusive h y hy hb he) hy ?_
    rw [hjobs]
    exact List.not_mem_nil
  · obtain ⟨y', hy', hb⟩ := hsettled.orderly.carried hobj
    cases hy.symm.trans hy'
    have howner : owner' h y.inst := hle _ _ (hw.exclusive h y hy hb he)
    -- The handle goes with the object, and nothing else refers to the instance.
    have hreleased := (hsettled.released_iff hend hedits hobj).2 hgone
    have hnone : (steps (steps { plans } ss).2 ss').2.handle? h = none := by
      have hcontains := hend.orderly.stateOf_eq_released_iff.1 hreleased
      rw [World.contains, Store.contains_eq_isSome] at hcontains
      exact Option.not_isSome_iff_eq_none.1 (Bool.eq_false_iff.1 hcontains)
    refine Bool.eq_false_iff.2 fun hcontains => ?_
    refine hw'.notMem_references howner hnone ?_ (hend.mem_references hcontains)
    rw [hjobs']
    exact List.not_mem_nil

namespace Lifetime

/-- A box keeps the last value that was put into it. -/
def box : Puppet.Plan where
  descriptor := ({ name := "Box" } : TypeDescriptor).method "put" [.variant] .void
  behaviours := [some (.store 0)]
  slots := [{}]
  hasSource := false

def plans : Plans := ⟨fun _ => box⟩

def kind : ClassKey := .puppet (.last 2)

/-- A box is made, and a text is put into it. -/
def filling : List Script.Step :=
  [.mk (.onContext (.create "main" (.bridge { classes := [kind] }))) none,
    .mk (.onClass (.classOf kind)) (some "Box"),
    .mk (.onObject (.construct (.variable "Box") [])) (some "box"),
    .mk (.onObject (.callMethod (.variable "box") "put" [.string "text"])) none]

/-- The box is given up. -/
def leaving : List Script.Step :=
  [.mk (.onObject (.drop "box")) none]

/-- The steps of the example are careful. -/
theorem careful : Session.Careful { plans } (filling ++ leaving) := by
  refine ⟨.createContext _ _, .classOf _, .construct rfl nofun ?_, .callMethod rfl ?_ ?_, .drop _, trivial⟩
  · intro c us code data _ hus _ _
    cases hus
    exact nofun
  · exact List.forall_mem_singleton.2 rfl
  · intro id us _ hus
    cases hus
    exact World.MethodPasses.of_forall (List.forall_mem_singleton.2 (.plain rfl))

/-- Two boxes are made, and the first is put into the second. -/
def nesting : List Script.Step :=
  [.mk (.onContext (.create "main" (.bridge { classes := [kind] }))) none,
    .mk (.onClass (.classOf kind)) (some "Box"),
    .mk (.onObject (.construct (.variable "Box") [])) (some "inner"),
    .mk (.onObject (.construct (.variable "Box") [])) (some "outer"),
    .mk (.onObject (.callMethod (.variable "outer") "put" [.variable "inner"])) none]

end Lifetime

set_option maxRecDepth 100000 in
/-- A box that holds a text has its instance to itself. -/
theorem Session.ownAlone_of_box :
    Session.Careful { plans := Lifetime.plans } (Lifetime.filling ++ Lifetime.leaving) ∧
      (steps { plans := Lifetime.plans } Lifetime.filling).2.handle? ⟨0⟩ =
        some ⟨Lifetime.kind, ⟨0⟩, .exclusive, .bound, none⟩ ∧
      (steps { plans := Lifetime.plans } Lifetime.filling).2.count (.inst ⟨0⟩) = 1 := by
  have hhandle : (steps { plans := Lifetime.plans } Lifetime.filling).2.handle? ⟨0⟩ =
      some ⟨Lifetime.kind, ⟨0⟩, .exclusive, .bound, none⟩ := by cbv
  have halone := (Session.ownAlone Lifetime.plans Lifetime.careful).alone ⟨0⟩ _ hhandle rfl rfl
  exact ⟨Lifetime.careful, hhandle, halone⟩

set_option maxRecDepth 100000 in
/-- Without care an exclusive handle is not alone: the outer box owns the instance of the inner one too. -/
theorem Session.shared_of_boxes :
    (steps { plans := Lifetime.plans } Lifetime.nesting).2.handle? ⟨0⟩ =
        some ⟨Lifetime.kind, ⟨0⟩, .exclusive, .bound, none⟩ ∧
      (steps { plans := Lifetime.plans } Lifetime.nesting).2.count (.inst ⟨0⟩) = 2 := by
  constructor <;> cbv

end Isthmus
