import Isthmus.Bridge.Program
import Isthmus.Command.Arguments
import Isthmus.Session.Run

/-!
# Command/Demo — what foreign code sees of the library

Each scenario uses a library class through a host, as foreign code would, and tells what came of it.
-/

namespace Isthmus.Command

open Engine Session

/-- How code runs in a demonstration: a listener only notes what it hears. -/
def listening : Runner :=
  let run := runner depthLimit
  { run with
    call := fun cx code info =>
      match code with
      | .closure c => do
        let args ← info.args.mapM describe
        note (.text (c.name ++ "(" ++ ",".intercalate args ++ ")"))
        return .undefined
      | _ => run.call cx code info }

/-- Stops a demonstration. -/
def giveUp {α : Type} (text : String) : Engine α :=
  fail "demo" text

/-- A throw ends the demonstration with its text. -/
def checked {α : Type} (m : Engine α) : Engine α := do
  match ← attempt m with
  | .error (.thrown v) => giveUp (← describe v)
  | other => resume other

/-- The text of a result, or of what was thrown. -/
def outcome {α : Type} (m : Engine α) (text : α → Engine String) : Engine String := do
  match ← attempt m with
  | .ok a => text a
  | .error (.thrown v) => return "threw " ++ (← describe v)
  | .error stop => throw stop

/-- The object that a value is. -/
def expectObject (v : ForeignValue) : Engine ObjectId := do
  match v with
  | .object id => return id
  | v => giveUp ("expected an object, got " ++ (← describe v))

/-- Calls a method of an object. -/
def send (cx : ContextId) (obj : ObjectId) (name : String) (args : List ForeignValue) :
    Engine ForeignValue :=
  callMethod listening cx obj name args

/-- Calls, properties, statics and errors. -/
def calculator (cx : ContextId) : Engine (List String) := do
  let object ← checked (constructExported listening cx "Calculator" [])
  let tell (label : String) (m : Engine ForeignValue) : Engine String := do
    return label ++ " = " ++ (← outcome m describe)
  let members := [
    ← tell "add(2, 3)" (send cx object "add" [.number 2, .number 3]),
    ← tell "add(2)" (send cx object "add" [.number 2]),
    ← tell "divide(1, 4)" (send cx object "divide" [.number 1, .number 4]),
    ← tell "divide(1, 0)" (send cx object "divide" [.number 1, .number 0]),
    ← tell "concat(\"fer\", \"ry\")" (send cx object "concat" [.string "fer", .string "ry"]),
    "calls = 0 -> " ++
      (← outcome (setProperty listening cx object "calls" (.number 0)) fun _ => return "ok"),
    ← tell "calls" (getProperty listening cx object "calls")]
  let cls ← expectObject (← checked (exportedClass listening cx "Calculator"))
  return "# Calculator" :: members ++ [
    ← tell "Calculator.square(12)" (send cx cls "square" [.number 12]),
    ← tell "Calculator.PI" (getProperty listening cx cls "PI")]

/-- The rows, columns and channels of a matrix. -/
def shapeText (cx : ContextId) (matrix : ObjectId) : Engine String := do
  let parts ← ["rows", "cols", "type"].mapM fun name => do
    describe (← checked (send cx matrix name []))
  return "x".intercalate parts

/-- The outcome of a promise, once the background work is done. -/
def settled (cx : ContextId) (promise : ForeignValue) : Engine (Bool × ForeignValue) := do
  finishJobs
  if !(← pump listening cx 100000) then giveUp "promise did not settle within 10s"
  let state := ((promise.asObject?).bind (← get).object?).bind (·.promise?)
  match state with
  | some (.fulfilled v) => return (true, v)
  | some (.rejected v) => return (false, v)
  | some (.pending _) => giveUp "promise still pending"
  | none => giveUp "not a promise"

/-- Factories and background work.  `elapsed` is the time that the work takes, as it is told. -/
def imaging (cx : ContextId) (elapsed : String) : Engine (List String) := do
  let lib ← checked (constructExported listening cx "Imaging" [])
  let ones ← expectObject
    (← checked (send cx lib "ones" [.number 4, .number 6, .number 3]))
  let data ← checked (getProperty listening cx ones "data")
  let bytes := (((data.asObject?).bind (← get).object?).bind (·.buffer?)).map (·.bytes.size)
  let made := "ones(4, 6, RGB) = " ++ (← shapeText cx ones) ++ " matrix, " ++
    toString (bytes.getD 0) ++ " bytes"
  let promise ← checked
    (send cx lib "resize" [.object ones, .number 3, .number 2, .number 1])
  let resized ← match ← settled cx promise with
    | (true, v) => do
      pure ("resize(ones, 3, 2, LINEAR) resolved: " ++ (← shapeText cx (← expectObject v)) ++
        " matrix after " ++ elapsed)
    | (false, v) => do pure ("resize rejected: " ++ (← describe v))
  let promise ← checked (send cx lib "load" [.string "missing.pgm"])
  let loaded ← match ← settled cx promise with
    | (true, v) => do pure ("load resolved: " ++ (← shapeText cx (← expectObject v)))
    | (false, v) => do pure ("load(\"missing.pgm\") rejected: " ++ (← describe v))
  return ["# Imaging", made, resized, loaded]

/-- Adds a listener. -/
def listener (cx : ContextId) (name : String) : Engine ForeignValue := do
  let code : Callback := .closure (.mk name true [] none none)
  return .object (← allocate { context := cx, kind := .function name code 0 })

/-- The notes of listeners, oldest first. -/
def heard (w : World) : List String :=
  w.log.reverse.filterMap fun
    | .text line => some line
    | _ => none

/-- Events fired from the background. -/
def events (cx : ContextId) : Engine (List String) := do
  let ticker ← checked (constructExported listening cx "Ticker" [])
  let channels ← checked (send cx ticker "on" [])
  let title := "channels: " ++ (← describe channels)
  let changed ← listener cx "changed"
  let finished ← listener cx "finished"
  let _ ← checked (send cx ticker "on" [.string "changed(int)", changed])
  let _ ← checked (send cx ticker "on" [.string "finished()", finished])
  let _ ← checked (send cx ticker "start" [.number 3])
  finishJobs
  let _ ← pump listening cx 100000
  let lines := heard (← get)
  if !lines.contains "finished()" then giveUp "ticker did not finish within 10s"
  return "# Events" :: title :: lines.map ("event " ++ ·)

/-- Runs a scenario in a host. -/
def Scenario.run (cx : ContextId) (elapsed : String) : Scenario → Engine (List String)
  | calculator => Command.calculator cx
  | imaging => Command.imaging cx elapsed
  | events => Command.events cx
  | all => do
    return (← Command.calculator cx) ++ (← Command.imaging cx elapsed) ++ (← Command.events cx)

/-- Demonstrates a scenario in a program that has registered nothing yet: the lines it tells, or why it
failed. -/
def demonstrate (files : Files) (elapsed : String) (settings : Config.Settings)
    (scenario : Scenario) : Except String (List String) :=
  match ({} : Program).registryFor settings.conversion with
  | .error e => .error ("Config error: " ++ e.message)
  | .ok (registry, _) =>
    let told : Engine (List String) := do scenario.run (← createHost registry) elapsed
    match told.run { files, held := [[]] } with
    | .ok lines _ => .ok lines
    | .error (.failed _ text) _ => .error text
    | .error (.thrown v) w => .error ((w.describe? v).getD "")
    | .error (.aborted text) _ => .error text
    | .error .exhausted _ => .error "did not come to an end"

end Isthmus.Command
