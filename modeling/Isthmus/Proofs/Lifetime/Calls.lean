import Isthmus.Proofs.Lifetime.Apart

/-!
# Proofs/Lifetime/Calls — native calls and reserved instances

Reserved instances can reach native code by way of foreign values only, as a receiver or an argument.  A
receiver is not kept.  Arguments that are apart from reserved instances become native values that hold none
(`World.Reserved.free_becomes`).

* `Stands.runMember_now` — a native member leaves the reservations as they are, if it passes on no more than
  values that are apart.
* `Stands.runner` — and so does native code, however deep it runs.
* `Stands.call_now`, `Stands.callMethod_now` — and so do calls of foreign code.
-/

namespace Isthmus

/-! ## What calls pass on -/

namespace World

variable (w : World)

/-- The code of the function that a value is, and its number. -/
def code? : ForeignValue → Option (Callback × Nat)
  | .object id => ((w.object? id).bind (·.function?)).map (·.2)
  | _ => none

/-- What reading a property gives, where no getter runs. -/
def peek (id : ObjectId) (name : String) : Option ForeignValue :=
  match (w.object? id).bind (Engine.arrayAnswer? · name) with
  | some v => some v
  | none =>
    match w.lookup id name with
    | some (.data v _ _, _) => some v
    | some (.accessor (some _) _ _ _, _) => none
    | _ => some .undefined

variable (P : ForeignValue → Prop)

/-- What the call of a function passes on is as said. -/
def CallPasses (f receiver : ForeignValue) (args : List ForeignValue) : Prop :=
  ∀ code data, w.code? f = some (code, data) → w.passesOn { receiver, args, data } code →
    ∀ v ∈ args, P v

/-- What the call of a method passes on is as said.  What a getter gives may pass on anything. -/
def MethodPasses (id : ObjectId) (name : String) (args : List ForeignValue) : Prop :=
  match w.peek id name with
  | some f => w.CallPasses P f (.object id) args
  | none => ∀ v ∈ args, P v

/-- What the writing of a property passes on is as said. -/
def WritePasses (id : ObjectId) (name : String) (v : ForeignValue) : Prop :=
  ∀ getter setter data enumerable own,
    w.lookup id name = some (.accessor getter (some setter) data enumerable, own) →
    w.passesOn { receiver := .object id, args := [v], data } setter.callback → P v

end World

/-! ## Reading -/

namespace Engine

variable {α β : Type} {w : World} {cx : ContextId}

/-- If the action comes to its end it has changed nothing, and what it gives is as said. -/
def Finds (Q : α → Prop) (m : Engine α) (w : World) : Prop :=
  ∀ a w', m.run w = .ok a w' → w' = w ∧ Q a

namespace Finds

variable {P Q : α → Prop} {R : β → Prop} {m : Engine α}

/-- A result is found as it is. -/
theorem pure {a : α} (h : Q a) : Finds Q (Pure.pure a) w := by
  intro b w' hr
  cases hr
  exact ⟨rfl, h⟩

/-- Nothing is found by what throws. -/
theorem throw {e : Stop} : Finds Q (MonadExcept.throw e) w :=
  fun _ _ h => nomatch h

theorem abort {text : String} : Finds Q (Engine.abort text) w :=
  throw

theorem bridgeError {e : BridgeError} : Finds Q (e.raise cx) w :=
  fun _ _ h => nomatch h

/-- What is found may be used to find more. -/
theorem bind {f : α → Engine β} (hm : Finds P m w) (hf : ∀ a, P a → Finds R (f a) w) :
    Finds R (m >>= f) w := by
  intro b w' h
  obtain ⟨a, w₁, ha, hb⟩ := bind_ok h
  obtain ⟨rfl, hP⟩ := hm a w₁ ha
  exact hf a hP b w' hb

/-- The world may be read. -/
theorem get {f : World → Engine β} (h : Finds R (f w) w) : Finds R (MonadState.get >>= f) w :=
  h

/-- A refusal of foreign code is the end. -/
theorem refuse {e : BridgeError} {f : α → Engine β} : Finds R (e.raise cx >>= f) w :=
  bind (P := fun _ => False) bridgeError fun _ => False.elim

theorem bridge : Finds (fun _ => True) (Engine.bridge cx) w :=
  fun _ _ h => ⟨(bridge_ok h).1, trivial⟩

theorem registry : Finds (fun _ => True) (Engine.registry cx) w :=
  bind bridge fun _ _ => pure trivial

theorem methodAt {cls index} : Finds (fun _ => True) (Engine.methodAt cls index) w := by
  refine get ?_
  dsimp only
  split
  · exact pure trivial
  · exact abort

theorem propertyAt {cls index} : Finds (fun _ => True) (Engine.propertyAt cls index) w := by
  refine get ?_
  dsimp only
  split
  · exact pure trivial
  · exact abort

/-- Looking at a value finds what it shows, or raises why it cannot. -/
theorem look {r : Except Refusal α} : Finds (fun a => r = .ok a) (Engine.look cx r) w := by
  unfold Engine.look
  split
  · exact pure rfl
  · exact abort
  · exact abort

theorem canFromForeign {registry v t} : Finds (fun _ => True) (Engine.canFromForeign cx registry v t) w :=
  get fun b w' h => ⟨(look b w' h).1, trivial⟩

/-- A conversion to native only looks. -/
theorem fromForeign {registry v t} : Finds (fun r => w.fromForeign cx registry v t = .ok r)
    (Engine.fromForeign cx registry v t) w :=
  get look

/-- A probe finds nothing. -/
theorem firstRefused {registry index pairs} :
    Finds (fun _ => True) (Engine.firstRefused cx registry index pairs) w := by
  induction pairs generalizing index with
  | nil => exact pure trivial
  | cons pair rest ih =>
    refine bind canFromForeign fun b _ => ?_
    split
    · exact ih
    · exact pure trivial

/-- The native arguments are what the values convert to. -/
theorem convertArguments {registry index pairs} :
    Finds (fun r => ∀ natives, r = .ok natives → List.Forall₂ (w.Becomes cx registry) pairs natives)
      (Engine.convertArguments cx registry index pairs) w := by
  induction pairs generalizing index with
  | nil =>
    refine pure fun natives h => ?_
    cases h
    exact .nil
  | cons pair rest ih =>
    refine bind fromForeign fun r hr => ?_
    split
    · exact pure nofun
    · refine bind ih fun r hrest => ?_
      split
      · exact pure nofun
      · refine pure fun natives h => ?_
        cases h
        exact .cons hr (hrest _ rfl)

/-- Arguments become what they convert to, one by one. -/
theorem arguments {m args} : Finds
    (fun natives => ∃ registry, List.Forall₂ (w.Becomes cx registry) (args.zip m.parameters) natives)
    (Engine.arguments cx m args) w := by
  unfold Engine.arguments
  dsimp only
  split
  · exact refuse
  · refine bind registry fun registry _ => bind firstRefused fun r _ => ?_
    split
    · exact refuse
    · refine bind convertArguments fun r hr => ?_
      split
      · exact pure ⟨registry, hr _ rfl⟩
      · exact bridgeError

/-- A handle is found by its object, which is bound to it. -/
theorem handleOf {id} : Finds
    (fun found => ∀ e ∈ found, ∃ o, w.object? id = some o ∧ o.attachment = some (.handle e.1) ∧
      w.handle? e.1 = some e.2) (Engine.handleOf cx id) w := by
  have howned : Finds (fun _ => True) (Engine.checkOwned cx id) w :=
    fun _ _ h => ⟨(checkOwned_ok h).1, trivial⟩
  have hobject : Finds (fun o => w.object? id = some o) (Engine.object id) w := fun _ _ => object_ok
  refine bind howned fun _ _ => bind hobject fun o ho => ?_
  split
  · next h ha =>
    refine get (pure fun e he => ?_)
    obtain ⟨y, hy, rfl⟩ := Option.map_eq_some_iff.1 he
    exact ⟨o, ho, ha, hy⟩
  · exact pure nofun

/-- The receiver is the handle of the instance. -/
theorem receiver {cls} {info : CallInfo} :
    Finds (fun y => w.instanceOf? info.receiver = w.instance? y.inst) (Engine.receiver cx cls info) w := by
  refine get ?_
  dsimp only
  split
  · next id hid =>
    refine bind handleOf fun found hfound => ?_
    split
    · next y =>
      obtain ⟨o, ho, ha, hy⟩ := hfound _ rfl
      split
      · refine pure ?_
        rw [hid, World.instanceOf?]
        change (w.object? id >>= _) = _
        rw [ho]
        dsimp only [Option.bind_eq_bind, Option.bind_some]
        rw [ha]
        dsimp only
        rw [hy]
        rfl
      · exact abort
    · exact abort
  · exact abort

/-- What is called is a function with its code. -/
theorem callable {f} :
    Finds (fun r => w.code? f = some r.2) (Engine.callable cx f) w := by
  have hraise {text} : Finds (fun r : ObjectId × Callback × Nat => w.code? f = some r.2)
      (do Engine.raiseTypeError cx ((← Engine.describe f) ++ text)) w := by
    intro r w' h
    obtain ⟨_, _, -, h⟩ := bind_ok h
    cases h
  refine get ?_
  split
  · next id =>
    split
    · next name code data hf =>
      refine pure ?_
      rw [World.code?, hf]
      rfl
    · exact hraise
  · exact hraise

end Finds

/-- Reading a property where no getter runs. -/
theorem getProperty_peek {run : Runner} {id : ObjectId} {name : String} {v u : ForeignValue} {w' : World}
    (h : w.peek id name = some v) (hr : (getProperty run cx id name).run w = .ok u w') :
    u = v ∧ ∃ held, w' = { w with held } := by
  obtain ⟨_, _, hc, hrest⟩ := bind_ok hr
  obtain ⟨rfl, -⟩ := checkOwned_ok hc
  obtain ⟨o, _, ho, hread⟩ := bind_ok hrest
  obtain ⟨rfl, ho⟩ := object_ok ho
  rw [World.peek, ho, Option.bind_some] at h
  split at hread
  · next a ha =>
    rw [ha] at h
    cases h
    cases hread
    exact ⟨rfl, _, rfl⟩
  · next ha =>
    rw [ha] at h
    dsimp only at h
    rw [run_get_bind] at hread
    split at hread
    · next hl =>
      rw [hl] at h
      cases h
      cases hread
      exact ⟨rfl, _, rfl⟩
    · next hl =>
      rw [hl] at h
      cases h
    · next hdata haccessor =>
      have hu : some ForeignValue.undefined = some v := by
        rw [← h]
        split
        · next hl => exact absurd hl (hdata _ _ _ _)
        · next hl => exact absurd hl (haccessor _ _ _ _ _)
        · rfl
      cases hu
      cases hread
      exact ⟨rfl, _, rfl⟩

end Engine

/-- The native arguments that values apart from reserved instances become hold none. -/
theorem World.Reserved.free_becomes {w : World} {x : Reserve} (h : w.Reserved x) {cx : ContextId}
    {registry : Registry} {args : List ForeignValue} (hargs : ∀ v ∈ args, x.Apart v)
    {parameters : List TypeId} {natives : List NativeValue}
    (hn : List.Forall₂ (w.Becomes cx registry) (args.zip parameters) natives) :
    ∀ u ∈ natives, x.Free u.refs := by
  have hpairs : ∀ p ∈ args.zip parameters, x.Apart p.1 := fun p hp => hargs p.1 (List.of_mem_zip hp).1
  generalize args.zip parameters = pairs at hn hpairs
  induction hn with
  | nil => exact List.forall_mem_nil _
  | cons hp _ ih =>
    obtain ⟨hv, hpairs⟩ := List.forall_mem_cons.1 hpairs
    exact List.forall_mem_cons.2 ⟨h.free_fromForeign hv _ hp _ rfl, ih hpairs⟩

namespace Stands

open Engine (Respects)

variable {α : Type} {x : Reserve} {run : Runner} {cx : ContextId}

/-! ## Native values on the foreign side -/

/-- A promise shares nothing native. -/
theorem promiseFor {d} : Conserves x.Stands (Engine.promiseFor cx d) := by
  refine .bind .bridge fun b => .now fun w hw => ?_
  dsimp only
  split
  · next cell hd =>
    have hheld : (w.holding [.object ⟨w.objects.next⟩]).Reserved x :=
      hw.holding (Reserve.free_of_forall fun i => by simp)
    exact (hheld.promise cx _ _ hd).release _
  · exact hw

/-- A conversion to foreign passes on what the value refers to. -/
theorem encode (hrun : x.Runs run) {limit e} {v : NativeValue} (hv : x.Free v.refs) :
    Conserves x.Stands (Engine.encode run cx limit e v) := by
  unfold Engine.encode
  split
  · split
    · exact .bind promiseFor fun _ => .pure
    · exact raiseTypeError
  · exact wrapNative hrun hv
  · exact encodePlain

mutual

/-- So it does inside of lists and variants. -/
theorem toForeign (hrun : x.Runs run) {registry} {v : NativeValue} (hv : x.Free v.refs) :
    Conserves x.Stands (Engine.toForeign run cx registry v) := by
  unfold Engine.toForeign
  split
  · exact toForeign hrun hv
  · refine .bind (allToForeign hrun (Reserve.free_items.1 hv)) fun r => ?_
    split
    · exact .bind createArray fun _ => .pure
    · exact .pure
  · split
    · exact .bind (encode hrun hv) fun _ => .pure
    · exact .pure

/-- So it does for each item. -/
theorem allToForeign (hrun : x.Runs run) {registry} {vs : List NativeValue}
    (hvs : ∀ v ∈ vs, x.Free v.refs) : Conserves x.Stands (Engine.allToForeign run cx registry vs) := by
  unfold Engine.allToForeign
  split
  · exact .pure
  · obtain ⟨hv, hvs⟩ := List.forall_mem_cons.1 hvs
    refine .bind (toForeign hrun hv) fun r => ?_
    split
    · exact .pure
    · refine .bind (allToForeign hrun hvs) fun r => ?_
      split
      · exact .pure
      · exact .pure

end

/-! ## Members of classes -/

theorem bridgeError {e : BridgeError} : Conserves x.Stands (e.raise cx : Engine α) :=
  .bind createError fun _ => .raise

/-- A refusal of foreign code is the end. -/
theorem refuse {β : Type} {e : BridgeError} {f : α → Engine β} : Conserves x.Stands (e.raise cx >>= f) :=
  .bind' bridgeError fun _ _ _ h => nomatch h

theorem look {r : Except Refusal α} : Conserves x.Stands (Engine.look cx r) := by
  unfold Engine.look
  split
  · exact .pure
  · exact .abort
  · exact .abort

/-- Probes keep reservations, for they only look. -/
theorem firstRefused {registry index pairs} :
    Conserves x.Stands (Engine.firstRefused cx registry index pairs) := by
  induction pairs generalizing index with
  | nil => exact .pure
  | cons pair rest ih => exact .bind (.bind .get fun _ => look) fun _ => .ite (fun _ => ih) fun _ => .pure

/-- What arguments convert to is held for the call. -/
theorem convertArguments {registry index pairs} :
    Conserves x.Stands (Engine.convertArguments cx registry index pairs) := by
  induction pairs generalizing index with
  | nil => exact .pure
  | cons pair rest ih =>
    refine .bind (.bind .get fun _ => look) fun r => ?_
    split
    · exact .pure
    · refine .bind ih fun r => ?_
      split
      · exact .pure
      · exact .pure

/-- All arguments are held before native code has them. -/
theorem arguments {m args} : Conserves x.Stands (Engine.arguments cx m args) := by
  unfold Engine.arguments
  refine .check bridgeError fun _ => .bind registry fun registry => .bind firstRefused fun r => ?_
  dsimp only
  split
  · refine .bind bridgeError fun _ => .bind convertArguments fun r => ?_
    split
    · exact .pure
    · exact bridgeError
  · refine .bind convertArguments fun r => ?_
    split
    · exact .pure
    · exact bridgeError

/-- A result is passed on to the foreign side. -/
theorem resultToForeign (hrun : x.Runs run) {member declared} {v : NativeValue} (hv : x.Free v.refs) :
    Conserves x.Stands (Engine.resultToForeign run cx member declared v) := by
  refine .ite (fun _ => .pure) fun _ => ?_
  dsimp only
  split
  · exact bridgeError
  · next u hu =>
    refine .bind registry fun _ => .bind (toForeign hrun (Reserve.free_convert hv hu)) fun r => ?_
    split
    · exact .pure
    · exact bridgeError

/-- A call ends by passing on what native code gave. -/
theorem finish (hrun : x.Runs run) {m} {outcome : Engine.Outcome}
    (h : Results (x.Free ·.refs) outcome) : Conserves x.Stands (Engine.finish run cx m outcome) := by
  cases outcome with
  | ok v => exact resultToForeign hrun (h v rfl)
  | error e => exact bridgeError

/-- The receiver of a method stays with its handle. -/
theorem receiver {cls info} : Conserves x.Stands (Engine.receiver cx cls info) := by
  refine .bind .get fun w => ?_
  dsimp only
  split
  · refine .bind handleOf fun h => ?_
    split
    · exact .ite (fun _ => .pure) fun _ => .abort
    · exact .abort
  · exact .abort

theorem methodAt {cls index} : Conserves x.Stands (Engine.methodAt cls index) := by
  refine .bind .get fun w => ?_
  dsimp only
  split
  · exact .pure
  · exact .abort

theorem propertyAt {cls index} : Conserves x.Stands (Engine.propertyAt cls index) := by
  refine .bind .get fun w => ?_
  dsimp only
  split
  · exact .pure
  · exact .abort

/-- A method is called that passes on no reserved instance. -/
theorem invokeMember_now (hrun : x.Runs run) {w : World} {cls} {info : CallInfo}
    (h : w.passesOn info (.member cls .invoke) → ∀ v ∈ info.args, x.Apart v) :
    x.Stands w ((Engine.invokeMember run cx cls info).after w) := by
  refine Conserves.bind_now methodAt fun m w₁ hm => ?_
  obtain rfl := (Engine.Finds.methodAt _ _ hm).1
  refine Conserves.bind_now receiver fun y w₁ hy => ?_
  obtain ⟨rfl, hinst⟩ := Engine.Finds.receiver _ _ hy
  refine Conserves.bind_now arguments fun natives w₁ ha => ?_
  obtain ⟨rfl, r, hnatives⟩ := Engine.Finds.arguments _ _ ha
  intro hw
  refine (invoke_now hw fun n hn hp => hw.free_becomes (h ?_) hnatives).andThen fun _ => finish hrun
  rw [World.passesOn, hinst, hn]
  exact hp

/-- A static member passes on arguments only where it is known to. -/
theorem invokeStaticMember_now (hrun : x.Runs run) {w : World} {cls} {info : CallInfo}
    (h : w.passesOn info (.member cls .invokeStatic) → ∀ v ∈ info.args, x.Apart v) :
    x.Stands w ((Engine.invokeStaticMember run cx cls info).after w) := by
  refine Conserves.bind_now methodAt fun m w₁ hm => ?_
  obtain rfl := (Engine.Finds.methodAt _ _ hm).1
  refine Conserves.bind_now arguments fun natives w₁ ha => ?_
  obtain ⟨rfl, r, hnatives⟩ := Engine.Finds.arguments _ _ ha
  exact fun hw => (invokeStatic_now hw fun hp => hw.free_becomes (h hp) hnatives).andThen fun _ => finish hrun

/-- A getter passes on what the instance gives. -/
theorem getMember (hrun : x.Runs run) {cls info} :
    Conserves x.Stands (Engine.getMember run cx cls info) := by
  refine .bind propertyAt fun _ => .bind receiver fun _ => readMember.andThen fun r hr => ?_
  split
  · exact resultToForeign hrun (hr _ rfl)
  · exact bridgeError

/-- A setter passes on what is written only where the instance keeps it. -/
theorem setMember_now {w : World} {cls} {info : CallInfo}
    (h : w.passesOn info (.member cls .set) → ∀ v ∈ info.args, x.Apart v) :
    x.Stands w ((Engine.setMember cx cls info).after w) := by
  refine Conserves.bind_now propertyAt fun p w₁ hp => ?_
  obtain rfl := (Engine.Finds.propertyAt _ _ hp).1
  refine Conserves.bind_now receiver fun y w₁ hy => ?_
  obtain ⟨rfl, hinst⟩ := Engine.Finds.receiver _ _ hy
  refine Conserves.bind_now registry fun registry w₁ hr => ?_
  obtain rfl := (Engine.Finds.registry _ _ hr).1
  dsimp only
  split
  · exact refuse _
  · next hlength =>
    split
    · exact refuse _
    · refine Conserves.bind_now (.bind .get fun _ => look) fun b w₁ hb => ?_
      obtain rfl := (Engine.Finds.canFromForeign _ _ hb).1
      split
      · exact refuse _
      · refine Conserves.bind_now (.bind .get fun _ => look) fun r w₁ hr => ?_
        obtain ⟨rfl, hnative⟩ := Engine.Finds.fromForeign _ _ hr
        split
        · exact bridgeError _
        · next native =>
          intro hw
          have hwrite : ((Engine.writeMember y.inst info.data native).after w₁).Reserved x := by
            refine writeMember_now hw fun n hn hkeeps => ?_
            have hp : w₁.passesOn info (.member cls .set) := by
              rw [World.passesOn, hinst, hn]
              exact hkeeps
            have hmem : info.arg 0 ∈ info.args := by
              obtain ⟨v, hv⟩ := List.length_eq_one_iff.1 (not_not.1 hlength)
              rw [CallInfo.arg, hv]
              exact List.mem_singleton_self v
            exact hw.free_fromForeign (h hp _ hmem) _ hnative native rfl
          refine Conserves.step_now (R := x.Stands) (fun _ => hwrite) (fun b w₂ _ => ?_) hw
          exact Conserves.ite (fun _ => .pure) (fun _ => bridgeError) w₂

/-- Subscribing passes a callback on, and no instance. -/
theorem onMember {cls info} : Conserves x.Stands (Engine.onMember cx cls info) := by
  refine .bind receiver fun h => .bind .get fun w => ?_
  split
  · exact .bind createArray fun _ => .pure
  · refine .ite (fun _ => ?_) fun _ => bridgeError
    dsimp only
    split
    · refine .bind subscribe fun result => ?_
      split
      · exact .pure
      · exact bridgeError
    · refine .bind .pure fun result => ?_
      split
      · exact .pure
      · exact bridgeError
  · exact bridgeError

/-- A class constructor that is called without constructing refuses. -/
theorem constructMember {cls} {info : CallInfo} (h : ¬ info.isConstructCall) :
    Conserves x.Stands (Engine.constructMember cx cls info) := by
  refine .bind .get fun w => ?_
  dsimp only
  rw [if_pos (by rw [Bool.eq_false_iff.2 h]; rfl)]
  exact refuse

/-- **Native members leave reservations alone**, if they pass on no more than values that are apart and do not
construct. -/
theorem runMember_now (hrun : x.Runs run) {w : World} {cls role} {info : CallInfo}
    (h : w.passesOn info (.member cls role) → ∀ v ∈ info.args, x.Apart v)
    (hc : ¬ (Callback.member cls role).Constructs info) :
    x.Stands w ((Engine.runMember run cx cls role info).after w) := by
  cases role with
  | construct => exact constructMember (fun hn => hc ⟨⟨cls, rfl⟩, hn⟩) w
  | invoke => exact invokeMember_now hrun h
  | invokeStatic => exact invokeStaticMember_now hrun h
  | get => exact getMember hrun w
  | set => exact setMember_now h
  | on => exact onMember w

theorem consoleError {info} : Conserves x.Stands (Session.consoleError cx info) :=
  .bind (.mapM fun _ => describe) fun _ => .bind modifyContext fun _ => .pure

/-- **Native code leaves reservations alone**, however deep it runs. -/
theorem runner (x : Reserve) (n : Nat) : x.Runs (Session.runner n) := by
  induction n with
  | zero => exact ⟨fun _ _ _ h => h⟩
  | succ n ih =>
    refine ⟨fun {w cx code info} hn h hc => ?_⟩
    cases code with
    | consoleError => exact consoleError w
    | member cls role => exact runMember_now ih h hc
    | stock => cases hn
    | closure => cases hn

/-! ## Foreign calls -/

/-- A call passes on what the code that is called does. -/
theorem call_now (hrun : x.Runs run) {w : World} {f receiver args}
    (h : w.CallPasses x.Apart f receiver args) :
    x.Stands w ((Engine.call run cx f receiver args).after w) := by
  intro hw
  have hnative : ∀ r w', (Engine.callable cx f).run w = .ok r w' → r.2.1.isNative := (callable w hw).2
  refine Conserves.bind_now callable.conserves (fun r w₁ hr => ?_) hw
  obtain ⟨rfl, hcode⟩ := Engine.Finds.callable r w₁ hr
  have hn := hnative r _ hr
  obtain ⟨id, code, data⟩ := r
  refine Conserves.bind_now .checkOwned fun _ w₂ hc => ?_
  obtain ⟨rfl, -⟩ := Engine.checkOwned_ok hc
  exact hrun.call hn (h code data hcode) Callback.not_constructs_of_data

theorem callMethod_now (hrun : x.Runs run) {w : World} {id name args}
    (h : w.MethodPasses x.Apart id name args) :
    x.Stands w ((Engine.callMethod run cx id name args).after w) := by
  refine Conserves.bind_now (getProperty hrun) fun f w₁ hf => Conserves.get_now ?_
  have hcall : w₁.CallPasses x.Apart f (.object id) args := by
    rw [World.MethodPasses] at h
    cases hp : w.peek id name with
    | none =>
      rw [hp] at h
      exact fun _ _ _ _ => h
    | some v =>
      obtain ⟨rfl, held, rfl⟩ := Engine.getProperty_peek hp hf
      rw [hp] at h
      exact h
  split
  · exact Conserves.bind' raiseTypeError (fun _ _ _ h => nomatch h) w₁
  · exact call_now hrun hcall

end Stands

end Isthmus
