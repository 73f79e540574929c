import Isthmus.World.Basic

/-!
# World/References — who refers to what

`World.references` lists every reference in the world, one entry for each owner.  A thing lives as
long as it is in that list; `World.count` is the number of its owners.
-/

namespace Isthmus

/-- The references of an optional thing. -/
def refsOf {α : Type} (f : α → List Ref) : Option α → List Ref
  | some a => f a
  | none => []

mutual

/-- What a native value refers to, one entry for each occurrence. -/
def NativeValue.refs : NativeValue → List Ref
  | .buffer b => [.storage b.storage]
  | .list items => NativeValue.refsIn items
  | .variant content => content.refs
  | .object _ i => [.inst i]
  | .deferred d => [.deferred d]
  | _ => []

/-- What the items of a list refer to. -/
def NativeValue.refsIn : List NativeValue → List Ref
  | [] => []
  | v :: rest => v.refs ++ NativeValue.refsIn rest

end

theorem NativeValue.refsIn_eq_flatMap (vs : List NativeValue) :
    NativeValue.refsIn vs = vs.flatMap NativeValue.refs := by
  induction vs with
  | nil => rfl
  | cons v vs ih => simp [NativeValue.refsIn, ih]

/-- What a foreign value refers to. -/
def ForeignValue.refs : ForeignValue → List Ref
  | .object o => [.object o]
  | _ => []

/-- What a property refers to. -/
def Property.refs : Property → List Ref
  | .data v _ _ => v.refs
  | .accessor .. => []

/-- What a promise refers to. -/
def PromiseState.refs : PromiseState → List Ref
  | .pending _ => []
  | .fulfilled v => v.refs
  | .rejected v => v.refs

/-- What an object refers to by its kind. -/
def ObjectKind.refs : ObjectKind → List Ref
  | .array items => items.flatMap ForeignValue.refs
  | .arrayBuffer b => [.storage b.storage]
  | .promise state => state.refs
  | _ => []

/-- What the native data of an object refers to. -/
def Attachment.refs : Attachment → List Ref
  | .handle h => [.handle h]
  | .plain _ => []

namespace Object

/-- What an object refers to, in the order in which it lets go: native data is not among it. -/
def contents (o : Object) : List Ref :=
  o.kind.refs ++ (refsOf (fun p => [.object p]) o.prototype) ++
    o.properties.flatMap (·.2.refs)

/-- Everything an object refers to. -/
def refs (o : Object) : List Ref :=
  refsOf Attachment.refs o.attachment ++ o.contents

end Object

/-- What a handle refers to. -/
def Handle.refs (h : Handle) : List Ref :=
  .inst h.inst :: refsOf (fun c => [.channels c]) h.channels

/-- What a matrix refers to. -/
def Matrix.refs (m : Matrix) : List Ref :=
  [.storage m.data.storage]

/-- What an instance refers to. -/
def Instance.refs : Instance → List Ref
  | .calculator c => refsOf NativeValue.refs c.last
  | .matrix m => m.refs
  | .ticker _ source => [.source source]
  | .puppet _ slots source => slots.flatMap (refsOf NativeValue.refs) ++ [.source source]
  | _ => []

/-- What a set of channels refers to.  The tokens of its subscribers are counted apart. -/
def Channels.refs (c : Channels) : List Ref :=
  [.source c.source]

/-- What an installation refers to. -/
def Installation.refs (i : Installation) : List Ref :=
  i.classes.map (fun e => .object e.2) ++ i.resolvers.map (fun e => .object e.2) ++
    i.subscriptions.flatMap (·.2.refs)

/-- What a wake refers to. -/
def Wake.refs : Wake → List Ref
  | .settle _ _ v => v.refs
  | .event _ args => NativeValue.refsIn args
  | .script .. => []

/-- The tokens in a wake. -/
def Wake.tokens : Wake → List Token
  | .event t _ => [t]
  | _ => []

/-- What an errand refers to. -/
def Errand.refs : Errand → List Ref
  | .aimed _ _ args => NativeValue.refsIn args
  | .armed _ wake => wake.refs

/-- The token that an errand carries. -/
def Errand.tokens : Errand → List Token
  | .aimed _ t _ => [t]
  | .armed _ wake => wake.tokens

/-- What a context refers to. -/
def Context.refs (c : Context) : List Ref :=
  (match c.data with
    | some (.bridge i) => [.installation i]
    | _ => []) ++ .object c.global :: refsOf (fun o => [.object o]) c.exported

/-- What the work on an image refers to. -/
def workRefs : Imaging.Work → List Ref
  | .resize source .. => source.refs
  | .load _ => []

/-- What a job refers to. -/
def Job.refs : Job → List Ref
  | .image d work => .deferred d :: workRefs work
  | .count i _ => [.inst i]
  | .complete d outcome => .deferred d :: refsOf (fun o => o.2.refs) outcome
  | .emit s _ args => .source s :: NativeValue.refsIn args

/-- What the names of a session refer to. -/
def Roots.refs (r : Roots) : List Ref :=
  r.values.flatMap (·.2.refs) ++ r.natives.flatMap (·.2.refs) ++
    r.handles.map (fun e => .handle e.2) ++ r.sources.map (fun e => .source e.2) ++
    r.channels.map (fun e => .channels e.2) ++ r.deferreds.map (fun e => .deferred e.2) ++
    r.buffers.map (fun e => .storage e.2.storage) ++ r.resolvers.map (fun e => .object e.2)

namespace World

/-- Every reference in the world. -/
def references (w : World) : List Ref :=
  w.roots.refs ++ w.held.flatten ++
    w.objects.values.flatMap Object.refs ++ w.handles.values.flatMap Handle.refs ++
    w.instances.values.flatMap Instance.refs ++
    w.deferreds.values.flatMap (fun d => d.value.refs) ++
    w.channels.values.flatMap Channels.refs ++
    w.installations.values.flatMap Installation.refs ++ w.contexts.values.flatMap Context.refs ++
    w.loops.values.flatMap (fun l => l.queue.flatMap Wake.refs) ++
    w.delivering.flatMap (fun d => d.2.refs) ++ w.jobs.flatMap Job.refs ++
    w.errands.flatMap Errand.refs

/-- How many owners a thing has. -/
def count (w : World) (r : Ref) : Nat :=
  w.references.count r

/-- The thing is there. -/
def contains (w : World) : Ref → Bool
  | .object o => w.objects.contains o.index
  | .handle h => w.handles.contains h.index
  | .inst i => w.instances.contains i.index
  | .deferred d => w.deferreds.contains d.index
  | .source s => w.sources.contains s.index
  | .channels c => w.channels.contains c.index
  | .installation i => w.installations.contains i.index
  | .storage s => w.storages.contains s

/-- All tokens in the world: those of current subscribers, and those in wakes and errands. -/
def tokens (w : World) : List Token :=
  w.channels.values.flatMap (fun c => c.subscribers.flatMap Option.toList) ++
    w.loops.values.flatMap (fun l => l.queue.flatMap Wake.tokens) ++
    w.delivering.flatMap (fun d => d.2.tokens) ++ w.errands.flatMap Errand.tokens

/-- The subscription in a slot of an installation is still wanted. -/
def isSubscribed (w : World) (t : Token) : Bool :=
  w.tokens.contains t

/-- Everything that is there but has no owner, oldest first within each kind. -/
def unowned (w : World) : List Ref :=
  let nodes :=
    w.objects.keys.map (fun k => Ref.object ⟨k⟩) ++ w.handles.keys.map (fun k => .handle ⟨k⟩) ++
    w.channels.keys.map (fun k => .channels ⟨k⟩) ++ w.instances.keys.map (fun k => .inst ⟨k⟩) ++
    w.deferreds.keys.map (fun k => .deferred ⟨k⟩) ++ w.sources.keys.map (fun k => .source ⟨k⟩) ++
    w.installations.keys.map (fun k => .installation ⟨k⟩) ++
    w.storages.keys.map (fun k => .storage k)
  let references := w.references
  nodes.filter (!references.contains ·)

end World

end Isthmus
