import Isthmus.Engine.Native

/-!
# Engine/Member — running native members on the world

Members of an instance may change it, fire its events, build values, and leave work for the background.
-/

namespace Isthmus.Engine

/-- How a native member ends: with a result, or with a failure that it reports. -/
abbrev Outcome := Except NativeError NativeValue

/-- Turns a fault of a member into a failure, or aborts for a missing argument. -/
def settleFault {α : Type} : Except Fault α → Engine (Except NativeError α)
  | .ok a => return .ok a
  | .error (.error e) => return .error e
  | .error (.missingArgument index count) =>
    abort ("index out of bounds: the len is " ++ toString count ++ " but the index is " ++
      toString index)

/-- Replaces an instance, and lets go of what the earlier state referred to. -/
def updateInstance (id : InstanceId) (before after : Instance) : Engine Unit := do
  modify fun w => { w with instances := w.instances.modify id.index fun _ => after }
  letGo before.refs

/-- Does what an image operation asks for. -/
def fulfil : Imaging.Request → Engine NativeValue
  | .create m => do
    let b ← createBuffer m.data.bytes none
    matrixValue { m with data := b }
  | .schedule work => do
    let d ← createDeferred
    spawn (.image d work)
    return .deferred d

/-- The matrix of an instance. -/
def matrixOf (w : World) (id : InstanceId) : Option Matrix :=
  match w.instance? id with
  | some (.matrix m) => some m
  | _ => none

/-- Does what a puppet's plan says for a method that needs no instance. -/
def perform (index : Nat) (args : List NativeValue) : Puppet.Behaviour → Engine Outcome
  | .returns recipe => do
    match ← build recipe with
    | some v => return .ok v
    | none => return .error (.other "unknown name")
  | .fails e => return .error e
  | .echo i => settleFault (argument args i)
  | .all => return .ok (.list args)
  | .background outcome => do
    let d ← createDeferred
    match outcome with
    | none => spawn (.complete d none)
    | some (status, recipe) =>
      spawn (.complete d ((← build recipe).map fun v => (status, v)))
    return .ok (.deferred d)
  | _ => return .error (.unknownMember index)

/-- Runs a method of an instance by its index. -/
def invoke (id : InstanceId) (index : Nat) (args : List NativeValue) : Engine Outcome := do
  let w ← get
  let nameOf := ClassKey.typeName
  match w.instance? id with
  | some (.calculator c) =>
    let (result, c') := c.invoke nameOf index args
    updateInstance id (.calculator c) (.calculator c')
    settleFault result
  | some (.matrix m) => settleFault (m.invoke nameOf index args)
  | some .imaging =>
    match ← settleFault (Imaging.request nameOf (matrixOf w) 0 index args) with
    | .ok request => return .ok (← fulfil request)
    | .error e => return .error e
  | some (.ticker value source) =>
    match ← settleFault (Ticker.request nameOf index args) with
    | .ok .bump =>
      let value := value + 1
      updateInstance id (.ticker value source) (.ticker value source)
      let a := Ticker.announce value
      emit source a.event a.args
      return .ok .void
    | .ok (.start count) =>
      spawn (.count id count)
      return .ok .void
    | .error e => return .error e
  | some (.puppet i slots source) =>
    match (w.plans.plan i).behaviour? index with
    | some (.emit event) =>
      emit source event args
      return .ok .void
    | some (.spawnEmit event) =>
      spawn (.emit source event args)
      return .ok .void
    | some (.store slot) =>
      match ← settleFault (argument args 0) with
      | .ok v =>
        updateInstance id (.puppet i slots source) (.puppet i (slots.set slot (some v)) source)
        return .ok .void
      | .error e => return .error e
    | some (.load slot) => return .ok (slots[slot]?.join.getD .void)
    | some b => perform index args b
    | none => return .error (.unknownMember index)
  | _ => return .error (.unknownMember index)

/-- Runs a static method of a class by its index. -/
def invokeStatic (cls : ClassKey) (index : Nat) (args : List NativeValue) : Engine Outcome := do
  match cls with
  | .calculator => settleFault (Calculator.invokeStatic ClassKey.typeName index args)
  | .puppet i =>
    match ((← get).plans.plan i).behaviour? index with
    | some b => perform index args b
    | none => return .error (.unknownMember index)
  | _ => return .error (.unknownMember index)

/-- Reads a property of an instance by its index. -/
def readMember (id : InstanceId) (index : Nat) : Engine (Option NativeValue) := do
  match (← get).instance? id with
  | some (.calculator c) => return c.read index
  | some (.matrix m) => return m.read index
  | some (.ticker value _) => return if index = 0 then some (.int value) else none
  | some (.puppet _ slots _) => return slots[index]?.join
  | _ => return none

/-- Writes a property of an instance by its index; answers whether that was taken. -/
def writeMember (id : InstanceId) (index : Nat) (v : NativeValue) : Engine Bool := do
  let w ← get
  match w.instance? id with
  | some (.calculator c) =>
    match c.write index v with
    | some c' =>
      updateInstance id (.calculator c) (.calculator c')
      return true
    | none => return false
  | some (.puppet i slots source) =>
    if ((w.plans.plan i).slots[index]?).any (·.accepts) then
      updateInstance id (.puppet i slots source) (.puppet i (slots.set index (some v)) source)
      return true
    else return false
  | _ => return false

/-! ## Deferreds and background work -/

/-- Completes a deferred, which may settle a promise; answers whether it was still pending. -/
def complete (id : DeferredId) (status : DeferredStatus) (v : NativeValue) : Engine Bool := do
  match (← get).complete id status v with
  | none => return false
  | some done =>
    operate fun _ => done
    return true

/-- The result of work on an image. -/
def imageResult (files : Files) : Imaging.Work → Except String Matrix
  | .resize source width height interpolation => source.resize 0 width height interpolation
  | .load path =>
    match Imaging.load 0 (files.read path) with
    | .ok m => .ok m
    | .error e => .error e.message

/-- Does on a ticker what a step of a call comes to. -/
def enact (id : InstanceId) (deed : Ticker.Deed) : Engine Unit := do
  match (← get).instance? id with
  | some (.ticker value source) =>
    match deed with
    | .reached v => updateInstance id (.ticker value source) (.ticker v source)
    | .announced a => emit source a.event a.args
  | _ => return

/-- Does background work. -/
def runJob : Job → Engine Unit
  | .image d work => do
    match imageResult (← get).files work with
    | .ok m =>
      let b ← createBuffer m.data.bytes none
      let v ← matrixValue { m with data := b }
      let _ ← complete d .resolved v
    | .error text => let _ ← complete d .rejected (.string text)
  | .count id count => do
    match (← get).instance? id with
    | some (.ticker value _) => (count.run value).forM (enact id)
    | _ => return
  | .complete d outcome => do
    if let some (status, v) := outcome then let _ ← complete d status v
  | .emit source event args => emit source event args

/-- Does `count` jobs, oldest first; each is let go of when it is done. -/
def runJobs : Nat → Engine Unit
  | 0 => return
  | count + 1 => do
    match (← get).jobs with
    | [] => return
    | job :: _ =>
      runJob job
      modify fun w => { w with jobs := w.jobs.tail }.sweep
      runJobs count

/-- Does all background work that was submitted. -/
def finishJobs : Engine Unit := do
  runJobs (← get).jobs.length

end Isthmus.Engine
