import Isthmus.Session.Perform

/-!
# Session/Run — running the code of a session

`runner` says how code runs: the functions of the bridge, the stock functions, and what the script
itself wrote.  Code that runs inside other code is limited in depth; `depthLimit` is far beyond what a
session that comes to an end needs.
-/

namespace Isthmus.Session

open Engine Script

/-! ## Stock functions -/

/-- Assigns a property of the receiver, if it is an object. -/
def setOnReceiver (run : Runner) (cx : ContextId) (info : CallInfo) (name : String)
    (v : ForeignValue) : Engine Unit := do
  if let .object this := info.receiver then setProperty run cx this name v

/-- Runs a stock function. -/
def runStock (run : Runner) (cx : ContextId) (info : CallInfo) : Stock → Engine ForeignValue
  | .data => return .number (Float.ofNat info.data)
  | .argumentCount => return .number (Float.ofNat info.args.length)
  | .receiver => return info.receiver
  | .firstArgument => return info.arg 0
  | .made => do
    setOnReceiver run cx info "made" (.bool info.isConstructCall)
    if let some target := info.newTarget then
      if let some (name, _, _) := (← object target).function? then
        setOnReceiver run cx info "by" (.string name)
    return .undefined
  | .object => do
    let id ← allocate { context := cx }
    setProperty run cx id "tag" (info.arg 0)
    return .object id
  | .fail => raiseError cx "callback failed"
  | .getSlot => getValue run cx info.receiver "_slot"
  | .setSlot => do
    setOnReceiver run cx info "_slot" (info.arg 0)
    return .undefined

/-! ## Script code -/

/-- Runs the steps of a body; a failure that one reports becomes an error that is thrown. -/
def runBody (run : Runner) (frame : Frame) (body : List Step) : Engine Unit :=
  body.forM fun s => do
    match ← attempt (runStep run frame s) with
    | .ok _ => return
    | .error (.failed kind message) => raiseError frame.context (kind ++ ": " ++ message)
    | .error stop => throw stop

/-- Calls a function written in a script. -/
def runClosure (run : Runner) (cx : ContextId) (info : CallInfo) : Closure → Engine ForeignValue
  | .mk name quiet body result thrown => do
    let w ← get
    if !quiet then
      note (.record [("call", .text name), ("this", w.showForeign cx info.receiver),
        ("args", .list (info.args.map (w.showForeign cx)))])
    let frame : Frame := { context := cx, call := info }
    runBody run frame body
    match thrown with
    | some e => raise (← eval run frame e)
    | none => evalOr run frame .undefined result

/-- Runs a reaction of a promise; a throw goes to the diagnostics. -/
def runReaction (run : Runner) (cx : ContextId) (r : Reaction) (fulfilled : Bool)
    (v : ForeignValue) : Engine Unit := do
  let shown := (← get).showForeign cx v
  note (.record [("settled", .text r.label), (if fulfilled then "ok" else "err", shown)])
  match ← attempt (runBody run { context := cx } r.body) with
  | .error (.thrown v) => reportException cx v
  | other => resume other

/-- Runs a script that was sent. -/
def runSent (run : Runner) (cx : ContextId) (label : String) (body : List Step) :
    Engine Unit := do
  note (.record [("work", .text label), ("depth", .nat (← context cx).depth)])
  runBody run { context := cx } body

/-- Writes the texts of its arguments to the diagnostics. -/
def consoleError (cx : ContextId) (info : CallInfo) : Engine ForeignValue := do
  let parts ← info.args.mapM describe
  report cx (" ".intercalate parts)
  return .undefined

/-- Runs the code of a function, getter or setter. -/
def runCallback (run : Runner) (cx : ContextId) (code : Callback) (info : CallInfo) :
    Engine ForeignValue :=
  match code with
  | .consoleError => consoleError cx info
  | .member cls role => runMember run cx cls role info
  | .stock code => runStock run cx info code
  | .closure c => runClosure run cx info c

/-- How code runs when at most `depth` pieces of it run inside each other. -/
def runner : Nat → Runner
  | 0 => .exhausted
  | depth + 1 =>
    { call := fun cx code info => runCallback (runner depth) cx code info
      react := fun cx r fulfilled v => runReaction (runner depth) cx r fulfilled v
      deliver := fun cx label body => runSent (runner depth) cx label body }

/-- How many pieces of code may run inside each other. -/
def depthLimit : Nat := 1000

/-! ## Sessions -/

/-- How a step ended. -/
inductive Ending where
  | ok (d : Document)
  | thrown (shown : Document) (text : String)
  | failed (kind message : String)
  | aborted (text : String)
  | exhausted

/-- A step of a session: how it ended, and what it logged. -/
structure StepReport where
  ending : Ending
  log : List Document

/-- Shows how a step ended.  It does not come to an end if what it throws has no text. -/
def ending (cx : ContextId) (w : World) : Stop → Ending
  | .thrown v =>
    match w.describe? v with
    | some text => .thrown (w.showForeign cx v) text
    | none => .exhausted
  | .failed kind message => .failed kind message
  | .aborted text => .aborted text
  | .exhausted => .exhausted

/-- Lets go of what a step held, and does the background work that it left. -/
def conclude : Engine Unit := do
  closeFrame
  finishJobs

/-- Runs a step of a session in the current context.  Once its end was shown, what only that end kept is
gone, and the background work that it left is done. -/
def step (w : World) (s : Step) : StepReport × World :=
  let cx := w.current
  let (e, w) := match (runStep (runner depthLimit) { context := cx } s).run
      { w with held := [[]] } with
    | .ok d w => (Ending.ok d, w)
    | .error stop w => (ending cx w stop, w)
  let w := match conclude.run w with
    | .ok _ w => w
    | .error _ w => w
  (⟨e, w.log.reverse⟩, { w with log := [], held := [] })

/-- Runs the steps of a session, one after the other. -/
def steps (w : World) : List Step → List StepReport × World
  | [] => ([], w)
  | s :: rest =>
    let (r, w) := step w s
    let (rs, w) := steps w rest
    (r :: rs, w)

/-- The world in which a session starts: its context is set up as asked and has the name `main`.  A
failure of setting it up is a kind and a text. -/
def start (plans : Plans) (setup : Setup) : Except (String × String) World :=
  match step { plans } (.mk (.onContext (.create "main" setup)) none) with
  | (⟨.failed kind message, _⟩, _) => .error (kind, message)
  | (_, w) => .ok w

/-- The set-up of a session that asks for none. -/
def defaultSetup : Setup :=
  .bridge { classes := ClassKey.puppets }

/-- Runs a whole session. -/
def runAll (plans : Plans) (setup : Setup) (script : List Step) :
    Except (String × String) (List StepReport) := do
  return (steps (← start plans setup) script).1

end Isthmus.Session
