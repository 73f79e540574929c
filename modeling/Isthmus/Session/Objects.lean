import Isthmus.Engine.Loop
import Isthmus.Session.Eval

/-!
# Session/Objects — actions on foreign objects, promises and loops
-/

namespace Isthmus.Session

open Engine Script

variable (run : Runner)

/-- How a value presents itself. -/
def inspect (v : ForeignValue) : Engine Document := do
  let w ← get
  let some text := w.describe? v | throw .exhausted
  let some debug := w.debug? v | throw .exhausted
  let kind : List (String × Document) :=
    match v.asObject?.bind w.object? with
    | some o =>
      [("kind", .list [.bool o.items?.isSome, .bool o.isFunction, .bool o.promise?.isSome,
          .bool o.isError]),
        ("wrapped", .bool o.attachment.isSome)]
    | none => []
  return .record ([("describe", .text text), ("debug", .text debug), ("typeof", .text (w.typeOf v)),
    ("nullish", .bool v.isNullish),
    ("undefined", .bool (v matches .undefined)), ("function", .bool (w.isFunction v)),
    ("bool", .ofOption (v.asBool?.map .bool)), ("number", .ofOption (v.asNumber?.map .double)),
    ("string", .ofOption (v.asString?.map .text))] ++ kind)

/-- The definition that a property of a script stands for. -/
def definition (frame : Frame) : PropertySpec → Engine Definition
  | .method name code data isStatic readOnly =>
    return { name, member := .method (.stock code) data, isStatic, readOnly }
  | .accessor name getter setter data isStatic readOnly =>
    return { name, member := .accessor (getter.map .stock) (setter.map .stock) data
             isStatic, readOnly }
  | .value name e isStatic readOnly => do
    return { name, member := .value (← eval run frame e), isStatic, readOnly }

/-- The attributes of a definition. -/
def attributes (d : Definition) : Document :=
  .list [.text d.name, .bool d.writable, .bool d.enumerable, .bool d.isStatic]

/-- The plain native data attached to an object. -/
def unwrap (cx : ContextId) (id : ObjectId) : Engine Document := do
  checkOwned cx id
  let data := (← object id).attachment
  let text : Document := match data with
    | some (.plain (.text s)) => .text s
    | _ => .null
  let number : Document := match data with
    | some (.plain (.number n)) => .nat n
    | _ => .null
  return .record [("string", text), ("number", number), ("wrapped", .bool data.isSome)]

/-- Has a label reported when an object goes. -/
def addFinalizer (cx : ContextId) (id : ObjectId) (label : String) : Engine Unit := do
  checkOwned cx id
  modifyObject id fun o => { o with finalizers := o.finalizers ++ [label] }

/-- Gives the text that a context carries, and replaces what it carries by another text. -/
def instanceData (cx : ContextId) (replacement : Option String) : Engine Document := do
  let before := (← context cx).data
  if let some text := replacement then
    modify (·.unbind cx (some text))
    if let some (.bridge id) := before then letGo [.installation id]
  match before with
  | some (.text s) => return .text s
  | _ => return .null

/-- The depth of handle scopes before and after each of `count` that are opened inside each other. -/
def scopeDepths (cx : ContextId) : Nat → Engine (List Nat)
  | 0 => do
    let depth := (← context cx).depth
    return [depth, depth]
  | count + 1 => do
    let before := (← context cx).depth
    modify (·.openScope cx)
    let inside ← scopeDepths cx count
    modify (·.closeScope cx)
    return before :: inside ++ [(← context cx).depth]

/-- Takes the diagnostics of a context. -/
def takeDiagnostics (cx : ContextId) : Engine Document := do
  let lines := (← context cx).diagnostics
  modifyContext cx ({ · with diagnostics := [] })
  return .texts lines

/-! ## Promises -/

/-- Names a new promise, and the right to settle it. -/
def newPromise (cx : ContextId) (name : String) : Engine Unit := do
  let promise ← createPromise cx
  let old := (← get).roots.resolvers.find? name
  modifyRoots fun r => { r with resolvers := r.resolvers.put name promise }
  letGo (refsOf (fun o => [.object o]) old)
  assign name (.object promise)

/-- Gives up the right to settle a promise, and gives the promise. -/
def takeResolver (name : String) : Engine ObjectId := do
  let promise ← named (·.resolvers.find? name)
  hold [.object promise]
  modifyRoots fun r => { r with resolvers := r.resolvers.remove name }
  return promise

/-- Whether a promise is pending, and the promise; nothing for other values. -/
def promiseState (cx : ContextId) (v : ForeignValue) : Engine Document := do
  let w ← get
  match (v.asObject?.bind w.object?).bind (·.promise?) with
  | some state => return .list [.bool (state matches .pending _), w.showForeign cx v]
  | none => return .null

/-! ## Loops -/

/-- Names a new registration with a loop; answers whether the loop is that of the context. -/
def newTicket (cx : ContextId) (name : String) (loop : Option String) : Engine Bool := do
  let target ← match loop with
    | some l => named (·.loops.find? l)
    | none => pure cx
  if ((← get).loop? target).isNone then abort "loop is gone"
  modify (·.newTicket name target)
  return target = cx

/-- Has a script delivered by the loop that a ticket is for. -/
def sendTicket (name label : String) (body : List Step) : Engine Unit := do
  let target ← named (·.tickets.find? name)
  operate (·.sendTicket name target label body)

/-- Gives a ticket up. -/
def dropTicket (name : String) : Engine Unit := do
  let target ← named (·.tickets.find? name)
  modify (·.dropTicket name target)

/-- The state of the loop of a context. -/
def loopState (cx : ContextId) : Engine Document := do
  let w ← get
  let loop := (w.loop? cx).getD {}
  return .record [("idle", .bool (isIdle w cx)), ("pending", .nat loop.queue.length),
    ("live", .nat loop.live)]

/-- How many subscriptions and promises the bridge on a context keeps. -/
def bridgeState (cx : ContextId) : Engine Document := do
  let (id, installation) ← bridge cx
  let w ← get
  let live := installation.subscriptions.filter fun e => w.isSubscribed ⟨id, e.1⟩
  return .record [("subscriptions", .nat live.length),
    ("futures", .nat installation.resolvers.length)]

end Isthmus.Session
