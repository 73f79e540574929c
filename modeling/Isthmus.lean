import Isthmus.Agenda
import Isthmus.Bridge.Channels
import Isthmus.Bridge.Class
import Isthmus.Bridge.Error
import Isthmus.Bridge.FromForeign
import Isthmus.Bridge.Handle
import Isthmus.Bridge.Installation
import Isthmus.Bridge.Member
import Isthmus.Bridge.Program
import Isthmus.Bridge.Registry
import Isthmus.Bridge.ToForeign
import Isthmus.Command.Arguments
import Isthmus.Command.Demo
import Isthmus.Command.Run
import Isthmus.Config.Document
import Isthmus.Config.Settings
import Isthmus.Config.Toml
import Isthmus.Deferral.Basic
import Isthmus.Descriptor.Basic
import Isthmus.Descriptor.Listing
import Isthmus.Document.Basic
import Isthmus.Document.Pretty
import Isthmus.Engine.Basic
import Isthmus.Engine.Call
import Isthmus.Engine.Extract
import Isthmus.Engine.Loop
import Isthmus.Engine.Member
import Isthmus.Engine.Native
import Isthmus.Engine.Promise
import Isthmus.Engine.Property
import Isthmus.Engine.Runner
import Isthmus.Event.Basic
import Isthmus.File
import Isthmus.Foreign.Object
import Isthmus.Foreign.Value
import Isthmus.Library.Calculator
import Isthmus.Library.Class
import Isthmus.Library.Imaging
import Isthmus.Library.Matrix
import Isthmus.Library.Netpbm
import Isthmus.Library.Puppet
import Isthmus.Library.Resize
import Isthmus.Library.Ticker
import Isthmus.Main
import Isthmus.Native.Coercion
import Isthmus.Native.Deferred
import Isthmus.Native.Error
import Isthmus.Native.EventSource
import Isthmus.Native.Extract
import Isthmus.Native.Member
import Isthmus.Native.Recipe
import Isthmus.Native.Show
import Isthmus.Native.Value
import Isthmus.Number.Exact
import Isthmus.Number.Shortest
import Isthmus.Pool.Basic
import Isthmus.Pool.Script
import Isthmus.Script.Syntax
import Isthmus.Session.Contexts
import Isthmus.Session.Eval
import Isthmus.Session.Natives
import Isthmus.Session.Objects
import Isthmus.Session.Perform
import Isthmus.Session.Run
import Isthmus.Session.Show
import Isthmus.Text.Hex
import Isthmus.Text.Numeral
import Isthmus.Text.Quoted
import Isthmus.Text.Unprintable
import Isthmus.Text.Utf8
import Isthmus.Type.Id
import Isthmus.Type.Table
import Isthmus.World.Basic
import Isthmus.World.Describe
import Isthmus.World.Lookup
import Isthmus.World.Operation
import Isthmus.World.References
import Isthmus.World.Release
import Isthmus.World.Store
import Isthmus.Proofs.Run.History
import Isthmus.Proofs.Run.Conserve
import Isthmus.Proofs.Run.Loops
import Isthmus.Proofs.Run.Registrations
import Isthmus.Proofs.Run.Deferreds
import Isthmus.Proofs.Run.Effects
import Isthmus.Proofs.Run.Bridges
import Isthmus.Proofs.Run.Slots
import Isthmus.Proofs.Run.Futures
import Isthmus.Proofs.Run.Settlement
import Isthmus.Proofs.Run.Tokens
import Isthmus.Proofs.Run.Subscriptions
import Isthmus.Proofs.Run.Delivery
import Isthmus.Proofs.Run.Session
import Isthmus.Proofs.Run.Reinstall
import Isthmus.Proofs.Run.Passive
import Isthmus.Proofs.Run.Natives
import Isthmus.Proofs.Run.Actions
import Isthmus.Proofs.Run.Scripts
import Isthmus.Proofs.Run.Deliveries
import Isthmus.Proofs.Run.Dispatch
import Isthmus.Proofs.Run.Growth
import Isthmus.Proofs.Run.Definitions
import Isthmus.Proofs.Run.Classes
import Isthmus.Proofs.Values.Coercion
import Isthmus.Proofs.Values.Describe
import Isthmus.Proofs.Values.Infer
import Isthmus.Proofs.Values.Probe
import Isthmus.Proofs.Values.Number
import Isthmus.Proofs.Values.Instances
import Isthmus.Proofs.Values.RoundTrip
import Isthmus.Proofs.Run.Names
import Isthmus.Proofs.Deferral.History
import Isthmus.Proofs.Deferral.Steps
import Isthmus.Proofs.Deferral.Tracking
import Isthmus.Proofs.Deferral.Threads
import Isthmus.Proofs.Values.Encoding
import Isthmus.Proofs.Values.Endings
import Isthmus.Proofs.Values.Texts
import Isthmus.Proofs.Values.Traces
import Isthmus.Proofs.Members.Calls
import Isthmus.Proofs.Members.Lookup
import Isthmus.Proofs.Members.Making
import Isthmus.Proofs.Members.Reach
import Isthmus.Proofs.Text.Numeral
import Isthmus.Proofs.Library.Shape
import Isthmus.Proofs.Library.Netpbm
import Isthmus.Proofs.Library.Matrix
import Isthmus.Proofs.Library.Resize
import Isthmus.Proofs.Library.Responses
import Isthmus.Proofs.Values.Ownership
import Isthmus.Proofs.Lifetime.Release
import Isthmus.Proofs.Lifetime.Edits
import Isthmus.Proofs.Lifetime.Steady
import Isthmus.Proofs.Lifetime.Keeps
import Isthmus.Proofs.Lifetime.Handles
import Isthmus.Proofs.Lifetime.Reserved
import Isthmus.Proofs.Lifetime.Respects
import Isthmus.Proofs.Lifetime.Apart
import Isthmus.Proofs.Lifetime.Calls
import Isthmus.Proofs.Lifetime.Exclusive
import Isthmus.Proofs.Lifetime.Careful
import Isthmus.Proofs.Pumping.Idle
import Isthmus.Proofs.Pumping.Advance
import Isthmus.Proofs.Pumping.Drains
import Isthmus.Proofs.Pumping.Rounds
import Isthmus.Proofs.Bridge.Program
import Isthmus.Proofs.Pool.Tallies
import Isthmus.Proofs.Pool.Lossless
import Isthmus.Proofs.Heap.Lines
import Isthmus.Proofs.Heap.Steps
import Isthmus.Proofs.Heap.Assign
import Isthmus.Proofs.Heap.Reactions
import Isthmus.Proofs.Heap.Calm
import Isthmus.Proofs.Members.Unwritten
import Isthmus.Proofs.Members.Access
import Isthmus.Proofs.Members.Dispatch
import Isthmus.Proofs.Members.Sizes
import Isthmus.Proofs.Type.Registrations
import Isthmus.Proofs.Library.Ticker
import Isthmus.Proofs.Members.Listings
import Isthmus.Proofs.Run.Routing
import Isthmus.Proofs.Members.Channels
import Isthmus.Proofs.Lifetime.Storages
import Isthmus.Proofs.Lifetime.Lending
import Isthmus.Proofs.Lifetime.Buffers
import Isthmus.Proofs.Event.Connections
import Isthmus.Proofs.Event.Firings
import Isthmus.Proofs.Members.Signatures
