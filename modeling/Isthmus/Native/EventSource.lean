/-!
# Native/EventSource — who hears an event

A source lists its connections, oldest first.  A firing reaches the sinks in `targets` at the moment
it starts, in that order, whatever the sinks connect or disconnect while it runs.
-/

namespace Isthmus

/-- The identity of one connection, never used twice. -/
structure ConnectionId where
  index : Nat
  deriving DecidableEq, Repr, Inhabited

/-- A source with sinks of type `σ`. -/
structure EventSource (σ : Type) where
  connections : List (ConnectionId × σ) := []

namespace EventSource

variable {σ : Type}

/-- Adds a connection after the others. -/
def connect (s : EventSource σ) (id : ConnectionId) (sink : σ) : EventSource σ :=
  ⟨s.connections ++ [(id, sink)]⟩

/-- The connection is in the list. -/
def isConnected (s : EventSource σ) (id : ConnectionId) : Bool :=
  s.connections.any (·.1 = id)

/-- Removes a connection. -/
def disconnect (s : EventSource σ) (id : ConnectionId) : EventSource σ :=
  ⟨s.connections.filter (·.1 ≠ id)⟩

/-- The sinks a firing reaches, in order. -/
def targets (s : EventSource σ) : List σ :=
  s.connections.map (·.2)

end EventSource

end Isthmus
