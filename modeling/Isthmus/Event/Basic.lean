import Isthmus.Agenda
import Isthmus.Engine.Native
import Isthmus.Native.EventSource
import Isthmus.Session.Show

/-!
# Event/Basic — event sources whose sinks act on event sources

A script creates sources, connects and disconnects sinks and emits events.  Every sink logs what it
hears, and acts on what it hears first: it then does a script of its own.  An action of a script says what
it asks of a source in names and recipes; a request says it in identities and values.  The sinks that an
event reaches are fixed when it is emitted; what is to be done next stands in an agenda.
-/

namespace Isthmus

/-- One thing to do with event sources. -/
inductive EventAction where
  | create (source : String)
  | connect (source sink : String) (body : List EventAction)
  | disconnect (source sink : String)
  | emit (source : String) (event : Nat) (args : List Recipe)
  | count (source : String)

/-- A sink: its label, and what it does when it hears its first event. -/
structure Sink where
  label : String
  body : List EventAction
  heard : Bool := false

/-- What is asked of an event source. -/
inductive EventRequest where
  | create (source : String)
  | connect (source : String) (sink : Sink)
  /-- Asks to take a connection away; `none` is an identity that no connection has. -/
  | disconnect (source : String) (id : Option ConnectionId)
  | emit (source : String) (event : Nat) (args : List NativeValue)
  | count (source : String)

/-- The event sources of a script. -/
structure Events where
  /-- Each source lists its sinks by their keys. -/
  sources : Names (EventSource Nat) := []
  sinks : Store Sink := .empty
  /-- The connection that was last made under the label of a sink. -/
  connections : Names ConnectionId := []
  /-- The identity of the next connection. -/
  nextConnection : Nat := 0
  /-- The instances and buffers in arguments. -/
  world : World := {}
  /-- The answer to the outermost action; none if it failed. -/
  answer : Option Document := none
  /-- What was logged, newest first. -/
  log : List Document := []

namespace Events

/-- One task of the agenda. -/
inductive Task where
  /-- Does an action; `inner` says that it stands in a body. -/
  | act (a : EventAction) (inner : Bool)
  /-- An event reaches a sink. -/
  | fire (sink : Nat) (event : Nat) (args : List NativeValue)
  /-- Gives the answer to an action. -/
  | answer (result : Option Document) (inner : Bool)

/-- Adds a log entry. -/
def note (s : Events) (entry : Document) : Events :=
  { s with log := entry :: s.log }

/-- Connects a sink to a source. -/
def connect (s : Events) (name : String) (source : EventSource Nat) (sink : Sink) : Events :=
  let id : ConnectionId := ⟨s.nextConnection⟩
  { s with
    sources := s.sources.put name (source.connect id s.sinks.next)
    sinks := s.sinks.insert sink
    connections := s.connections.put sink.label id
    nextConnection := s.nextConnection + 1 }

/-- Takes a connection from a source; answers whether the source had it. -/
def disconnect (s : Events) (name : String) (source : EventSource Nat) :
    Option ConnectionId → Bool × Events
  | none => (false, s)
  | some id =>
    (source.isConnected id, { s with sources := s.sources.put name (source.disconnect id) })

/-- Does what is asked of a source, if it exists. -/
def request (s : Events) (inner : Bool) : EventRequest → Events × List Task
  | .create name =>
    ({ s with sources := s.sources.put name {} }, [.answer (some .null) inner])
  | .connect name sink =>
    match s.sources.find? name with
    | none => (s, [.answer none inner])
    | some source => (s.connect name source sink, [.answer (some (.bool true)) inner])
  | .disconnect name id =>
    match s.sources.find? name with
    | none => (s, [.answer none inner])
    | some source =>
      let (was, s) := s.disconnect name source id
      (s, [.answer (some (.bool was)) inner])
  | .emit name event args =>
    match s.sources.find? name with
    | none => (s, [.answer none inner])
    | some source =>
      (s, source.targets.map (.fire · event args) ++ [.answer (some .null) inner])
  | .count name =>
    (s, [.answer ((s.sources.find? name).map fun source => .nat source.connections.length) inner])

/-- Builds the arguments of an event. -/
def build (s : Events) (rs : List Recipe) : Option (List NativeValue) × Events :=
  match (Engine.buildAll rs).run s.world with
  | .ok vs world => (vs, { s with world })
  | .error _ world => (none, { s with world })

/-- What an action asks for; none if its arguments cannot be built.  A label stands for the connection that
was last made under it. -/
def resolve (s : Events) : EventAction → Option EventRequest × Events
  | .create name => (some (.create name), s)
  | .connect name label body => (some (.connect name { label, body }), s)
  | .disconnect name label => (some (.disconnect name (s.connections.find? label)), s)
  | .emit name event rs =>
    if (s.sources.find? name).isSome then
      let (args, s) := s.build rs
      (args.map (.emit name event), s)
    else (none, s)
  | .count name => (some (.count name), s)

/-- Does an action. -/
def act (s : Events) (inner : Bool) (a : EventAction) : Events × List Task :=
  match s.resolve a with
  | (none, s) => (s, [.answer none inner])
  | (some r, s) => s.request inner r

/-- An event reaches a sink: it logs the event, and if it heard none before it acts. -/
def fire (s : Events) (key event : Nat) (args : List NativeValue) : Events × List Task :=
  match s.sinks.get? key with
  | none => (s, [])
  | some sink =>
    let s := s.note (.record [("sink", .text sink.label), ("index", .nat event),
      ("args", .list (args.map s.world.showNative))])
    ({ s with sinks := s.sinks.modify key ({ · with heard := true }) },
      if sink.heard then [] else sink.body.map (.act · true))

/-- Does a task of the agenda: what comes of it, and what has to be done before the rest. -/
def step (s : Events) (_rest : List Task) : Task → Events × List Task
  | .act a inner => s.act inner a
  | .fire sink event args => s.fire sink event args
  | .answer result false => ({ s with answer := result }, [])
  | .answer (some result) true => (s.note (.record [("inner", result)]), [])
  | .answer none true => (s, [])

/-- Does an action of a script: the answer, none if it failed, and what was logged. -/
def perform (s : Events) (a : EventAction) : Option (Option Document × List Document × Events) := do
  let s ← Agenda.run step Agenda.limit { s with answer := none, log := [] } [.act a false]
  return (s.answer, s.log.reverse, s)

end Events

end Isthmus
