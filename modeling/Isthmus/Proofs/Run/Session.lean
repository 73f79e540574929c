import Isthmus.Proofs.Run.Deliveries

/-!
# Proofs/Run/Session — what a session does is a run

Each step of a session is a sequence of moves that ends the deliveries that it begins, so every world that
a session comes to is reachable, and what holds of reachable worlds holds of sessions.

* `runs` — the code of a script is active, however deep it calls and delivers.
* `reachable_session` — the worlds of a session are reachable, and nothing is under way in them.
-/

namespace Isthmus

open History

/-! ## Promises and tickets of a script -/

section

variable {w w' : World} {cx : ContextId}

/-- A script names a promise that is new, so no deferred has it. -/
theorem Passive.newPromise {name} : Passive w ((Session.newPromise cx name).after w) := by
  intro hr
  obtain ⟨held, hnew⟩ : ∃ held, (Engine.createPromise cx).run w = .ok ⟨w.objects.next⟩
      { w with objects := w.objects.insert { context := cx, kind := .promise (.pending []) }, held } :=
    ⟨_, rfl⟩
  have hcreate : Passive w ((Engine.createPromise cx).after w) := Conserves.createPromise w
  rw [Engine.after_of_ok hnew] at hcreate
  rw [Engine.after, Session.newPromise, Engine.run_bind_of_ok hnew]
  refine hcreate.trans ?_ hr
  have hname (held : List (List Ref)) : Quiet
      { w with objects := w.objects.insert { context := cx, kind := .promise (.pending []) }, held }
      { w with
        objects := w.objects.insert { context := cx, kind := .promise (.pending []) }
        roots.resolvers := w.roots.resolvers.put name ⟨w.objects.next⟩
        held } := by
    refine ⟨.refl _, rfl, rfl, rfl, fun _ => rfl, rfl, rfl, rfl, rfl, rfl, rfl, fun e he => ?_⟩
    obtain he | he := Names.mem_put he
    · exact .inl he
    · rw [he]
      refine .inr ⟨Nat.lt_succ_self _, fun hp => ?_⟩
      obtain ⟨k, d, h⟩ := hp
      exact Nat.lt_irrefl _ (hr.promised.lt h)
  refine Discipline.trans (Passive.quiet (hname held)) ?_
  have hrest : Conserves Passive (do
      Engine.letGo (refsOf (fun o => [.object o]) (w.roots.resolvers.find? name))
      Session.assign name (.object ⟨w.objects.next⟩)) :=
    Conserves.bind Conserves.letGo fun _ => Conserves.assign
  exact hrest _

/-- A name that is looked up is there. -/
theorem Engine.named_ok {α : Type} {find : Roots → Option α} {a : α}
    (h : (Session.named find).run w = .ok a w') : w' = w ∧ find w.roots = some a := by
  rw [Session.named, run_get_bind] at h
  split at h
  · cases h
    exact ⟨rfl, ‹_›⟩
  · cases h

/-- The right to settle a promise is given up by a name that stood for it. -/
theorem Engine.takeResolver_ok {name p} (h : (Session.takeResolver name).run w = .ok p w') :
    w'.history = w.history ∧ ∃ e ∈ w.roots.resolvers, e.2 = p := by
  obtain ⟨p', w₁, hn, hrest⟩ := bind_ok h
  obtain ⟨rfl, hf⟩ := named_ok hn
  cases hrest
  exact ⟨rfl, Names.mem_of_find? hf⟩

end

/-! ## What a session is made of -/

/-- A reflexive and transitive relation that holds for each thing that the actions of a script are made
of, given that the code which they run conserves it. -/
class SessionWork (R : World → World → Prop) : Prop extends ScriptWork R where
  newPromise (cx : ContextId) (name : String) : Conserves R (Session.newPromise cx name)
  newTicket (cx : ContextId) (name : String) (loop : Option String) :
    Conserves R (Session.newTicket cx name loop)
  sendTicket (name label : String) (body : List Script.Step) :
    Conserves R (Session.sendTicket name label body)
  dropTicket (name : String) : Conserves R (Session.dropTicket name)
  onSettled {n : Nat} (hrun : Runs R (Session.runner n)) (cx : ContextId) (promise : ObjectId)
    (r : Reaction) : Conserves R (Engine.onSettled (Session.runner n) cx promise r)
  /-- A script settles a promise of its own. -/
  settleNamed {n : Nat} (hrun : Runs R (Session.runner n)) (cx : ContextId) (name : String)
    (fulfil : Bool) (v : ForeignValue) : Conserves R (do
      Engine.settle (Session.runner n) cx (← Session.takeResolver name) fulfil v
      return .done : Engine Session.Answer)
  deliverNext {n : Nat} (hrun : Runs R (Session.runner n)) (cx : ContextId) :
    Conserves R (Engine.deliverNext (Session.runner n) cx)

instance : SessionWork Active where
  newPromise _ _ _ := Discipline.passive .newPromise
  newTicket cx name loop := by
    have hrest {target : ContextId} : Conserves Active (do
        let w ← MonadState.get
        if (w.loop? target).isNone then Engine.abort "loop is gone"
        modifyGet fun w : World => ((), w.newTicket name target)
        return target = cx : Engine Bool) := by
      refine .now fun w => ?_
      split
      · exact Discipline.refl w
      · next h =>
        have hl : (w.loop? target).isSome := Option.isNone_eq_false_iff.1 (Bool.not_eq_true _ ▸ h)
        exact Conserves.modify_now (Discipline.passive (.newTicket hl name)) fun _ => .pure
    unfold Session.newTicket
    dsimp only
    split
    · exact .bind .named fun _ => hrest
    · exact .bind .pure fun _ => hrest
  sendTicket name label body := by
    refine .bind' .named fun w cx w' hn => ?_
    obtain ⟨rfl, hf⟩ := Engine.named_ok hn
    exact Discipline.trans (Discipline.passive (.sendTicket hf label body)) (Releases.release _ _)
  dropTicket name := by
    refine .bind' .named fun w cx w' hn => ?_
    obtain ⟨rfl, hf⟩ := Engine.named_ok hn
    exact Discipline.passive (.dropTicket hf)
  onSettled hrun _ _ _ := .onSettled hrun
  settleNamed {n} hrun cx name fulfil v := by
    intro w hr
    suffices h : Active w _ from h hr
    refine Conserves.bind_now .takeResolver fun p w' hp => ?_
    obtain ⟨hh, e, he, rfl⟩ := Engine.takeResolver_ok hp
    have hf : ¬ w'.IsFuture e.2 := by
      rw [World.IsFuture, hh]
      exact (hr.promised.named e he).2
    have hsettle : Active w' ((Engine.settle (Session.runner n) cx e.2 fulfil v).after w') :=
      .settle hrun fun hpend => .settleOwn _ hf hpend
    rw [← Engine.after_bind_pure fun _ => Session.Answer.done] at hsettle
    exact hsettle
  deliverNext hrun _ := .deliverNext hrun

/-! ## Actions -/

namespace Conserves

variable {R : World → World → Prop} [SessionWork R] {n : Nat} {cx : ContextId} {frame : Session.Frame}

/-- What a script does to contexts. -/
theorem performContext {a} : Conserves R (Session.performContext cx a) := by
  cases a with
  | create name setup =>
    exact bind setUp fun _ => bind (modifyRoots fun _ => ⟨rfl, .refl _, .refl _⟩) fun _ =>
      bind useContext fun _ => pure
  | use name => exact bind named fun _ => bind useContext fun _ => pure
  | drop name =>
    exact bind named fun _ => bind (modifyRoots fun _ => ⟨rfl, .refl _, .refl _⟩) fun _ =>
      bind dropContext fun _ => pure
  | install spec =>
    refine bind get fun w => ?_
    split
    · exact bind install fun _ => pure
    · exact failConfig
  | isInstalled => exact bind get fun _ => pure
  | scopes count => exact bind scopeDepths fun _ => pure
  | diagnostics => exact bind takeDiagnostics fun _ => pure
  | report text => exact bind report fun _ => pure
  | instanceData text => exact bind instanceData fun _ => pure

/-- What it does to objects. -/
theorem performObject (hrun : Runs R (Session.runner n)) {a} :
    Conserves R (Session.performObject (Session.runner n) frame a) := by
  have hans := hrun.answers
  cases a with
  | eval v => exact bind (eval hans) fun _ => pure
  | drop name => exact giveUp fun _ => ⟨rfl, .refl _, .refl _⟩
  | note args => exact bind (evalAll hans) fun _ => bind get fun _ => bind note fun _ => pure
  | get obj name => exact bind (evalObject hans) fun _ => bind (getProperty hans) fun _ => pure
  | getValue v name => exact bind (eval hans) fun _ => bind (getValue hans) fun _ => pure
  | set obj name v =>
    exact bind (evalObject hans) fun _ => bind (eval hans) fun _ => bind (setProperty hans) fun _ =>
      pure
  | call fn receiver args =>
    exact bind (eval hans) fun _ => bind (evalOr hans) fun _ => bind (evalAll hans) fun _ =>
      bind (call hrun) fun _ => pure
  | callMethod obj name args =>
    exact bind (evalObject hans) fun _ => bind (evalAll hans) fun _ =>
      bind (callMethod hrun) fun _ => pure
  | construct cls args =>
    exact bind (eval hans) fun _ => bind (evalAll hans) fun _ => bind (construct hrun) fun _ => pure
  | createInstance cls =>
    exact bind (evalObject hans) fun _ => bind (createInstance hans) fun _ => pure
  | createWithPrototype proto =>
    exact bind (optionMapM fun _ => evalObject hans) fun _ => bind createWithPrototype fun _ => pure
  | keys obj => exact bind (evalObject hans) fun _ => bind object fun _ => pure
  | hasOwn obj name => exact bind (evalObject hans) fun _ => bind object fun _ => pure
  | prototypeOf obj =>
    refine bind (evalObject hans) fun _ => bind object fun o => ?_
    split
    · exact pure
    · exact pure
  | describe v => exact bind (eval hans) fun _ => bind describe fun _ => pure
  | strictEquals a b => exact bind (eval hans) fun _ => bind (eval hans) fun _ => pure
  | handleCount name =>
    refine bind get fun w => ?_
    split
    · exact pure
    · exact fail
  | inspect v => exact bind (eval hans) fun _ => bind inspect fun _ => pure
  | define obj specs =>
    exact bind (evalObject hans) fun _ => bind (mapM fun _ => definition hans) fun _ =>
      bind defineAll fun _ => pure
  | defineClass name code data specs =>
    exact bind (mapM fun _ => definition hans) fun _ => bind defineClass fun _ => pure
  | wrap obj data => exact bind (evalObject hans) fun _ => bind wrap fun _ => pure
  | unwrap obj => exact bind (evalObject hans) fun _ => bind unwrap fun _ => pure
  | addFinalizer obj label => exact bind (evalObject hans) fun _ => bind addFinalizer fun _ => pure
  | reportException v => exact bind (eval hans) fun _ => bind reportException fun _ => pure

/-- What it does to loops. -/
theorem performLoop (hrun : Runs R (Session.runner n)) {a} :
    Conserves R (Session.performLoop (Session.runner n) frame a) := by
  have hans := hrun.answers
  cases a with
  | newPromise name => exact bind (SessionWork.newPromise _ _) fun _ => pure
  | settle name fulfil v => exact bind (eval hans) fun _ => SessionWork.settleNamed hrun _ _ _ _
  | dropResolver name => exact bind takeResolver fun _ => pure
  | onSettled promise label body =>
    exact bind (evalObject hans) fun _ => bind (SessionWork.onSettled hrun _ _ _) fun _ => pure
  | promiseState v => exact bind (eval hans) fun _ => bind promiseState fun _ => pure
  | keepLoop name => exact bind (modifyRoots fun _ => ⟨rfl, .refl _, .refl _⟩) fun _ => pure
  | liveRegistrations name => exact bind named fun _ => bind get fun _ => pure
  | newTicket name loop => exact bind (SessionWork.newTicket _ _ _) fun _ => pure
  | sendTicket name label body => exact bind (SessionWork.sendTicket _ _ _) fun _ => pure
  | dropTicket name => exact bind (SessionWork.dropTicket _) fun _ => pure
  | runPending => exact bind (runPending (SessionWork.deliverNext hrun _)) fun _ => pure
  | runUntilIdle waits => exact bind (runUntilIdle (SessionWork.deliverNext hrun _)) fun _ => pure
  | loopState => exact bind loopState fun _ => pure
  | bridgeState => exact bind bridgeState fun _ => pure

/-- What it does to classes. -/
theorem performClass (hrun : Runs R (Session.runner n)) {a} :
    Conserves R (Session.performClass (Session.runner n) frame a) := by
  have hans := hrun.answers
  cases a with
  | toForeign r => exact bind buildValue fun _ => bind (convertToForeign hans) fun _ => pure
  | canToForeign r => exact bind buildValue fun _ => bind registry fun _ => pure
  | fromForeign v type keepAs =>
    refine bind (eval hans) fun _ => bind convertFromForeign fun native => bind hold fun _ => ?_
    have hrest : Conserves R (do
        let w ← MonadState.get
        return .document (w.showNative native) : Engine Session.Answer) := bind get fun _ => pure
    dsimp only
    split
    · exact bind assignNative fun _ => hrest
    · exact hrest
  | canFromForeign v type =>
    exact bind (eval hans) fun _ => bind registry fun _ => bind canFromForeign fun _ => pure
  | registry types => exact bind registryState fun _ => pure
  | exportAll target =>
    exact bind (evalObject hans) fun _ => bind exportClasses fun _ => bind object fun _ => pure
  | classOf cls => exact bind classOf fun _ => pure
  | wrapNative cls r => exact bind buildValue fun _ => bind (wrapNative hans) fun _ => pure
  | wrapInstance cls r =>
    refine bind' buildValue fun _ v w hbuild => bind_now instanceOf fun inst w' hinst => ?_
    obtain ⟨rfl, hv, hi⟩ := Engine.instanceOf_ok hinst
    have hh : .inst inst ∈ w'.held.flatten :=
      Engine.buildValue_ok hbuild _ (NativeValue.mem_refs_of_asObject? hv)
    exact step_now (wrapInstance_now hans hi hh) fun _ w'' _ => pure w''
  | hostClass name => exact bind (exportedClass hans) fun _ => pure
  | hostConstruct name args =>
    exact bind (evalAll hans) fun _ => bind (constructExported hrun) fun _ => pure
  | hostExports => exact bind exportsOf fun _ => pure

/-- What it does to native instances. -/
theorem performNative (hans : Answers R (Session.runner n)) {a} :
    Conserves R (Session.performNative (Session.runner n) frame a) := by
  cases a with
  | newNative name cls matrix => exact bind newNative fun _ => pure
  | dropNative name => exact giveUp fun _ => ⟨rfl, .refl _, .refl _⟩
  | callNative name cls c =>
    exact bind named fun _ => bind instanceOf fun _ => bind callNative fun _ => pure
  | newHandle name cls source => exact bind newHandle fun _ => pure
  | bindHandle name obj => exact bind (evalObject hans) fun _ => bind bindNamed fun _ => pure
  | dropHandle name => exact giveUp fun _ => ⟨rfl, .refl _, Names.remove_sublist _ _⟩
  | handleOf obj =>
    refine bind (evalObject hans) fun _ => bind handleOf fun h => ?_
    split
    · exact bind get fun _ => pure
    · exact pure
  | watchObject name obj =>
    refine bind (evalObject hans) fun _ => bind handleOf fun h => ?_
    split
    · exact bind watch fun _ => pure
    · exact fail
  | watchHandle name handle =>
    refine bind named fun _ => bind get fun w => ?_
    split
    · exact bind watch fun _ => pure
    · exact pure
  | watchState name => exact bind watchState fun _ => pure
  | newSource name => exact bind createSource fun _ => bind assignSource fun _ => pure
  | sourceOf inst cls name => exact bind nameSource fun _ => pure
  | sinkCount name => exact bind named fun _ => bind get fun _ => pure
  | emit name index args =>
    exact bind named fun _ => bind buildValues fun _ => bind emit fun _ => pure
  | connect name source cls => exact bind connectNamed fun _ => pure
  | subscribe name channel callback =>
    refine bind namedChannels fun _ => bind (optionMapM fun _ => eval hans) fun _ =>
      bind subscribe fun r => ?_
    split
    · exact pure
    · exact fail
  | isSubscribed name channel => exact bind namedChannels fun _ => pure
  | disconnect name => exact giveUp fun _ => ⟨rfl, .refl _, .refl _⟩
  | newDeferred name => exact bind createDeferred fun _ => bind assignDeferred fun _ => pure
  | completeDeferred name status r =>
    exact bind named fun _ => bind buildValue fun _ => bind complete fun _ => pure
  | deferredState name => exact bind named fun _ => bind get fun _ => pure
  | dropDeferred name => exact giveUp fun _ => ⟨rfl, .refl _, .refl _⟩
  | newBuffer name bytes label => exact bind createBuffer fun _ => bind assignBuffer fun _ => pure
  | cloneBuffer name source => exact bind named fun _ => bind assignBuffer fun _ => pure
  | dropBuffer name => exact giveUp fun _ => ⟨rfl, .refl _, .refl _⟩
  | bufferInfo name => exact bind bufferInfo fun _ => pure
  | sameBuffer name other => exact bind named fun _ => bind named fun _ => pure

/-- **Every action** ends the deliveries that it begins. -/
theorem action (hrun : Runs R (Session.runner n)) {a} :
    Conserves R (Session.perform (Session.runner n) frame a) := by
  cases a with
  | onContext a => exact performContext
  | onObject a => exact performObject hrun
  | onLoop a => exact performLoop hrun
  | onClass a => exact performClass hrun
  | onNative a => exact performNative hrun.answers

/-- A step does one of these, and may expect how it ends. -/
theorem runStep (hrun : Runs R (Session.runner n)) {s} :
    Conserves R (Session.runStep (Session.runner n) frame s) := by
  refine bind (framed (bind (action hrun) fun answer => ?_)) fun _ => bind finishJobs fun _ => pure
  split
  · exact pure
  · refine bind get fun w => ?_
    dsimp only
    split
    · exact bind assign fun _ => pure
    · exact pure

/-! ## Script code -/

/-- The body of a function is its steps. -/
theorem runBody (hrun : Runs R (Session.runner n)) {body} :
    Conserves R (Session.runBody (Session.runner n) frame body) := by
  refine forM fun s => bind (attempt (runStep hrun)) fun result => ?_
  split
  · exact pure
  · exact raiseError
  · exact throw

/-- A closure runs its body with its arguments. -/
theorem runClosure (hrun : Runs R (Session.runner n)) {info c} :
    Conserves R (Session.runClosure (Session.runner n) cx info c) := by
  obtain ⟨name, quiet, body, result, thrown⟩ := c
  refine bind get fun w => check note fun _ => bind (runBody hrun) fun _ => ?_
  split
  · exact bind (eval hrun.answers) fun _ => raise
  · exact evalOr hrun.answers

theorem runReaction (hrun : Runs R (Session.runner n)) {r fulfilled v} :
    Conserves R (Session.runReaction (Session.runner n) cx r fulfilled v) := by
  refine bind get fun w => bind note fun _ => bind (attempt (runBody hrun)) fun result => ?_
  split
  · exact reportException
  · exact resume

theorem runSent (hrun : Runs R (Session.runner n)) {label body} :
    Conserves R (Session.runSent (Session.runner n) cx label body) :=
  bind context fun _ => bind note fun _ => runBody hrun

/-- Code that is called is of one of these kinds. -/
theorem runCallback (hrun : Runs R (Session.runner n)) {code info} :
    Conserves R (Session.runCallback (Session.runner n) cx code info) := by
  cases code with
  | consoleError => exact consoleError
  | member cls role => exact runMember hrun.answers
  | stock code => exact runStock hrun.answers
  | closure c => exact runClosure hrun

end Conserves

/-- **The code of a script is active**, however deep its parts run inside each other. -/
theorem runs {R : World → World → Prop} [SessionWork R] (n : Nat) : Runs R (Session.runner n) := by
  induction n with
  | zero => exact ⟨.throw, .throw, .throw⟩
  | succ n ih =>
    refine ⟨fun {cx code info} => ?_, fun {cx r fulfilled v} => ?_, fun {cx label body} => ?_⟩
    · exact Conserves.runCallback ih
    · exact Conserves.runReaction ih
    · exact Conserves.runSent ih

/-! ## Sessions -/

section

variable {w : World}

/-- The world after a step: what the step does, its end, and nothing held. -/
theorem step_snd (w : World) (s : Script.Step) : (Session.step w s).2 =
    { Session.conclude.after ((Session.runStep (Session.runner Session.depthLimit)
        { context := w.current } s).after { w with held := [[]] }) with log := [], held := [] } := by
  rw [Engine.after, Engine.after, Session.step]
  cases (Session.runStep (Session.runner Session.depthLimit) { context := w.current } s).run
    { w with held := [[]] } with
  | ok d w' =>
    dsimp only
    cases Session.conclude.run w' <;> rfl
  | error stop w' =>
    dsimp only
    cases Session.conclude.run w' <;> rfl

/-- **A step of a session is a sequence of moves** that ends the deliveries that it begins. -/
theorem Active.step (s : Script.Step) : Active w (Session.step w s).2 := by
  have hstep : Conserves Active (Session.runStep (Session.runner Session.depthLimit)
    { context := w.current } s) := Conserves.runStep (runs _)
  have hconclude : Conserves Active Session.conclude :=
    Conserves.bind Conserves.closeFrame fun _ => Conserves.finishJobs
  have hhold : Active w { w with held := [[]] } := Discipline.passive (.quiet (.of_eq rfl rfl))
  have hclear (w : World) : Active w { w with log := [], held := [] } :=
    Discipline.passive (.quiet (.of_eq rfl rfl))
  rw [step_snd]
  have hend := Discipline.trans (hstep { w with held := [[]] }) (hconclude _)
  exact Discipline.trans hhold (Discipline.trans hend (hclear _))

/-- **The steps of a session are a sequence of moves** that ends the deliveries that it begins. -/
theorem Active.steps (ss : List Script.Step) : Active w (Session.steps w ss).2 := by
  induction ss generalizing w with
  | nil => exact Discipline.refl w
  | cons s ss ih => exact Discipline.trans (Active.step s) ih

end

/-! ## Sessions are runs -/

/-- The worlds of a session, as it stands between its steps: the first of these sets up its context. -/
def World.OfSession (w : World) : Prop :=
  ∃ plans ss, w = (Session.steps { plans } ss).2

/-- So are those of a session that was started as the program does. -/
theorem World.OfSession.started {plans : Plans} {setup : Script.Setup} {w₀ : World}
    (h : Session.start plans setup = .ok w₀) (ss : List Script.Step) :
    (Session.steps w₀ ss).2.OfSession := by
  refine ⟨plans, .mk (.onContext (.create "main" setup)) none :: ss, ?_⟩
  rw [Session.start] at h
  split at h
  · cases h
  · next hs =>
    cases h
    rw [Session.steps, hs]

/-- No delivery is under way and nothing is left to be queued; no firing was ever interrupted, and no event
taken while another one was being prepared for its subscriber. -/
structure World.Rests (w : World) : Prop where
  delivering : w.delivering = []
  errands : w.errands = []
  underway : underway w.history = []
  oneByOne : ∀ cx, OneByOne cx w.history
  prompt : w.Prompt

namespace World.Rests

variable {w w' : World}

/-- Where everything rests, no event is being prepared. -/
theorem preparing (h : w.Rests) (cx : ContextId) : preparing cx w.history = [] := by
  rw [History.preparing, h.underway]
  rfl

/-- It rests after what resumes its course. -/
theorem resumes (h : w.Rests) (hr : Resumes w w') : w'.Rests where
  delivering := hr.delivering.trans h.delivering
  errands := hr.errands.trans h.errands
  underway := hr.underway.trans h.underway
  oneByOne cx := hr.oneByOne cx (h.preparing cx) (h.oneByOne cx)
  prompt := hr.prompt h.prompt

/-- A session begins at rest. -/
theorem initial (plans : Plans) : World.Rests { plans } :=
  ⟨rfl, rfl, rfl, fun _ => trivial, fun _ ho => absurd ho Bool.false_ne_true⟩

end World.Rests

/-- **Every world of a session is reachable**, and one in which nothing is under way. -/
theorem reachable_session {w : World} (h : w.OfSession) : Reachable w ∧ w.Rests := by
  obtain ⟨plans, ss, rfl⟩ := h
  have hnew : Reachable { plans } := ⟨plans, .refl⟩
  obtain ⟨hm, hr⟩ := Active.steps ss hnew
  exact ⟨hnew.moves hm, (World.Rests.initial plans).resumes hr⟩

end Isthmus
