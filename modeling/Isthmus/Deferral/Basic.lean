import Isthmus.Agenda
import Isthmus.Engine.Native
import Isthmus.Session.Show

/-!
# Deferral/Basic — deferreds with continuations that act on deferreds

A script creates, copies, completes and drops handles of deferreds and attaches continuations, whose
bodies are scripts again.  What is to be done next stands in an agenda: `Deferrals.step` does a task and
says what has to be done before the others.  A deferred lives as long as a name, a value or a running
call holds it.

Which continuation ran for which deferred, and why, does not show in what a script leads to.  The
deferreds keep a list of what happened to them.  No operation reads it; the laws about runs speak of it.
-/

namespace Isthmus

/-- One thing to do with deferreds. -/
inductive DeferralAction where
  | create (name : String)
  | copy (name source : String)
  | drop (name : String)
  | complete (name : String) (status : DeferredStatus) (value : Recipe)
  | attach (name label : String) (body : List DeferralAction)
  | state (name : String)
  | same (name other : String)

/-- A continuation: its place in the order of attachment, its label, and what it does. -/
structure Later where
  serial : Nat
  label : String
  body : List DeferralAction

/-- Something that happened to deferreds. -/
inductive DeferralEvent where
  /-- A continuation was attached. -/
  | attached (deferred : DeferredId) (k : Later)
  /-- A deferred was to be completed; the answer says whether it was. -/
  | tried (deferred : DeferredId) (status : DeferredStatus) (value : NativeValue) (answer : Bool)
  /-- The last handle of a deferred went. -/
  | gone (deferred : DeferredId)
  /-- A continuation began to run. -/
  | ran (k : Later) (status : DeferredStatus) (value : NativeValue)

/-- The deferreds of a script. -/
structure Deferrals where
  cells : Store (Deferred Later) := .empty
  /-- The instances and buffers in values, and the names of the handles. -/
  world : World := {}
  /-- The deferreds that running calls hold. -/
  held : List DeferredId := []
  /-- How many continuations were attached. -/
  attachments : Nat := 0
  /-- What happened, newest first. -/
  history : List DeferralEvent := []
  /-- The answer to the outermost action; none if it failed. -/
  answer : Option Document := none
  /-- What was logged, newest first. -/
  log : List Document := []

namespace Deferrals

/-- One task of the agenda. -/
inductive Task where
  /-- Does an action; `inner` says that it stands in a body. -/
  | act (a : DeferralAction) (inner : Bool)
  /-- Runs a continuation with an outcome. -/
  | continueWith (k : Later) (status : DeferredStatus) (v : NativeValue)
  /-- A call is over that held a deferred. -/
  | endCall (d : DeferredId)
  /-- A handle is gone. -/
  | letGo (d : DeferredId)
  /-- Gives the answer to an action. -/
  | answer (result : Option Document) (inner : Bool)

def cell? (s : Deferrals) (d : DeferredId) : Option (Deferred Later) :=
  s.cells.get? d.index

/-- The deferred under a name. -/
def find? (s : Deferrals) (name : String) : Option DeferredId :=
  s.world.roots.deferreds.find? name

/-- Changes the names. -/
def rename (s : Deferrals) (f : Names DeferredId → Names DeferredId) : Deferrals :=
  { s with world.roots.deferreds := f s.world.roots.deferreds }

/-- What the values of deferreds refer to. -/
def scene (s : Deferrals) : Scene :=
  { s.world.scene with
    deferred? := fun id => (s.cell? id).map fun d => (d.status, d.result?)
    depth := s.cells.size + 1 }

/-- The deferreds in a value, one entry for each occurrence. -/
def inside (v : NativeValue) : List DeferredId :=
  v.refs.filterMap fun
    | .deferred d => some d
    | _ => none

/-- The handles of deferreds: in names, in values, and in running calls. -/
def handles (s : Deferrals) : List DeferredId :=
  s.world.roots.deferreds.map (·.2) ++ s.cells.values.flatMap (fun d => inside d.value) ++ s.held

/-- Adds a log entry. -/
def note (s : Deferrals) (entry : Document) : Deferrals :=
  { s with log := entry :: s.log }

/-- Adds to what happened. -/
def tell (s : Deferrals) (e : DeferralEvent) : Deferrals :=
  { s with history := e :: s.history }

/-- Builds a value. -/
def build (s : Deferrals) (r : Recipe) : Option NativeValue × Deferrals :=
  match (Engine.build r).run s.world with
  | .ok v world => (v, { s with world })
  | .error _ world => (none, { s with world })

/-- A deferred as a document. -/
def describe (s : Deferrals) (d : DeferredId) : Document :=
  let status := ((s.cell? d).map (·.status)).getD .pending
  let v := NativeValue.deferred d
  .record [("status", .text status.name),
    ("value", .ofOption (((s.cell? d).bind (·.result?)).map (·.toDocument s.scene))),
    ("debug", .text ("Deferred \x7b status: " ++ status.name ++ " \x7d")),
    ("native", .text (v.debug s.scene))]

/-- Names a handle, and lets go of the one that had the name. -/
def assign (s : Deferrals) (name : String) (d : DeferredId) : Deferrals × List Task :=
  (s.rename (·.put name d), (s.find? name).toList.map .letGo)

/-- Does an action. -/
def act (s : Deferrals) (inner : Bool) : DeferralAction → Deferrals × List Task
  | .create name =>
    let d : DeferredId := ⟨s.cells.next⟩
    let (s, more) := { s with cells := s.cells.insert {} }.assign name d
    (s, more ++ [.answer (some .null) inner])
  | .copy name source =>
    match s.find? source with
    | none => (s, [.answer none inner])
    | some d =>
      let (s, more) := s.assign name d
      (s, more ++ [.answer (some .null) inner])
  | .drop name =>
    match s.find? name with
    | none => (s, [.answer none inner])
    | some d => (s.rename (·.remove name), [.letGo d, .answer (some .null) inner])
  | .complete name status r =>
    match s.find? name with
    | none => (s, [.answer none inner])
    | some d =>
      let (v, s) := s.build r
      match v with
      | none => (s, [.answer none inner])
      | some v =>
        match (s.cell? d).bind (·.complete status v) with
        | none => (s.tell (.tried d status v false), [.answer (some (.bool false)) inner])
        | some (cell, k) =>
          ({ s with cells := s.cells.modify d.index fun _ => cell, held := d :: s.held }.tell
              (.tried d status v true),
            k.toList.map (.continueWith · status v) ++
              [.endCall d, .answer (some (.bool true)) inner])
  | .attach name label body =>
    match s.find? name with
    | none => (s, [.answer none inner])
    | some d =>
      match s.cell? d with
      | none => (s, [.answer none inner])
      | some cell =>
        let k : Later := { serial := s.attachments, label, body }
        let (cell, attached) := cell.attach k
        let s := { s with
          cells := s.cells.modify d.index fun _ => cell
          held := d :: s.held
          attachments := s.attachments + 1 }.tell (.attached d k)
        let now : List Task := match attached with
          | .waiting _ => []
          | .ready status v => [.continueWith k status v]
        (s, now ++ [.endCall d, .answer (some .null) inner])
  | .state name => (s, [.answer ((s.find? name).map s.describe) inner])
  | .same name other =>
    let result := do return Document.bool ((← s.find? name) = (← s.find? other))
    (s, [.answer result inner])

/-- Takes a deferred without handles out: its continuation runs with a rejection, and the handles in its
value go.  `rest` are the tasks that wait, which still count. -/
def letGo (s : Deferrals) (rest : List Task) (d : DeferredId) : Deferrals × List Task :=
  let waiting := rest.any fun
    | .letGo d' => d' = d
    | _ => false
  match s.cell? d with
  | none => (s, [])
  | some cell =>
    if waiting || s.handles.contains d then (s, [])
    else
      ({ s with cells := s.cells.erase d.index }.tell (.gone d),
        cell.abandoned.toList.map (.continueWith · .rejected Deferred.droppedReason) ++
          (inside cell.value).map .letGo)

/-- Does a task of the agenda: what comes of it, and what has to be done before the rest. -/
def step (s : Deferrals) (rest : List Task) : Task → Deferrals × List Task
  | .act a inner => s.act inner a
  | .continueWith k status v =>
    ((s.tell (.ran k status v)).note (.record [("then", .text k.label),
        ("status", .text status.name), ("value", v.toDocument s.scene)]),
      k.body.map (.act · true))
  | .endCall d => ({ s with held := s.held.erase d }, [.letGo d])
  | .letGo d => s.letGo rest d
  | .answer result false => ({ s with answer := result }, [])
  | .answer (some result) true => (s.note (.record [("inner", result)]), [])
  | .answer none true => (s, [])

/-- Does an action of a script: the answer, none if it failed, and what was logged. -/
def perform (s : Deferrals) (a : DeferralAction) : Option (Option Document × List Document × Deferrals) := do
  let s ← Agenda.run step Agenda.limit { s with answer := none, log := [] } [.act a false]
  return (s.answer, s.log.reverse, s)

end Deferrals

end Isthmus
