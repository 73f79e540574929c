import Isthmus.Bridge.Error
import Isthmus.Bridge.Installation
import Isthmus.World.Describe

/-!
# Bridge/Channels — event sources and their subscribers

Each event that a descriptor declares is a channel, named by its signature, with room for one
subscriber.  Firing an event queues a wake for the subscriber that is current at that moment.
-/

namespace Isthmus.Engine

/-- Connects the channels of a descriptor to a source.  On a context without a bridge the connection is
made all the same, but leads nowhere. -/
def connect (cx : ContextId) (descriptor : TypeDescriptor) (source : SourceId) :
    Engine ChannelsId := do
  let w ← get
  let id : ChannelsId := ⟨w.channels.next⟩
  let connection : ConnectionId := ⟨w.nextConnection⟩
  let w' := { w with
    nextConnection := w.nextConnection + 1
    sources := w.sources.modify source.index (·.connect connection id) }
  match w.bridge? cx with
  | some (installation, _) =>
    let channels : Channels :=
      { context := cx
        indices := descriptor.events.map (·.1)
        signatures := descriptor.channels ClassKey.typeName
        subscribers := descriptor.events.map fun _ => none
        source
        connection
        installation }
    set { w' with channels := w.channels.insert channels }
    return id
  | none =>
    set { w' with channels := w.channels.skip }
    let _ ← bridge cx
    return id

/-- Puts a subscriber into the channel of a signature, in the place of the one before; `none` leaves
the channel without. -/
def subscribe (cx : ContextId) (id : ChannelsId) (signature : String)
    (callback : Option ForeignValue) : Engine (Except BridgeError Unit) := do
  let w ← get
  let some c := w.channels? id | abort "channels are gone"
  let some place := c.signatures.findIdx? (· = signature)
    | return .error (.unknownChannel signature)
  if callback.any (!w.isFunction ·) then return .error .subscribeUsage
  let (home, installation) ← bridge cx
  operate (·.setSubscriber id place home installation.nextSlot callback)
  return .ok ()

/-- The channel of a signature has a subscriber. -/
def hasSubscriber (c : Channels) (signature : String) : Bool :=
  match c.signatures.findIdx? (· = signature) with
  | some place => (c.subscribers[place]?.join).isSome
  | none => false

/-- Fires an event of a source at everything that is connected when it starts. -/
def emit (source : SourceId) (event : Nat) (args : List NativeValue) : Engine Unit := do
  let some s := (← get).source? source | return
  s.targets.forM fun id => operate (·.fire id event args)

end Isthmus.Engine
