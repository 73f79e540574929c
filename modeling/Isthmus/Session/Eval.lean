import Isthmus.Bridge.ToForeign
import Isthmus.Session.Show

/-!
# Session/Eval — values of script expressions

An expression is evaluated in a frame: the context it belongs to, and the call whose body it is part of.
Names stand for what the session has under them at that moment.
-/

namespace Isthmus.Session

open Engine Script

/-- Where an expression is evaluated. -/
structure Frame where
  context : ContextId
  call : CallInfo := {}

variable (run : Runner)

/-- What the session has under a name. -/
def named {α : Type} (find : Roots → Option α) : Engine α := do
  match find (← get).roots with
  | some a => return a
  | none => fail "bad_input" "unknown name"

/-- Adds a file under a name of its own, and gives its path. -/
def createFile (bytes : Array UInt8) : Engine String := do
  let w ← get
  let path := "/tmp/session-" ++ toString w.files.entries.length
  set { w with files := w.files.add path bytes }
  return path

/-- Reads properties one inside the other. -/
def follow (cx : ContextId) (v : ForeignValue) : List String → Engine ForeignValue
  | [] => return v
  | key :: keys => do follow cx (← getValue run cx v key) keys

mutual

/-- Evaluates an expression. -/
def eval (frame : Frame) (e : Expr) : Engine ForeignValue := do
  match e with
  | .undefined => return .undefined
  | .null => return .null
  | .bool b => return .bool b
  | .number n => return .number n
  | .string s => return .string s
  | .array items =>
    let values ← evalAll frame items
    return .object (← createArray frame.context values)
  | .object entries =>
    let id ← allocate { context := frame.context }
    evalEntries frame id entries
    return .object id
  | .variable name => do keep (← named (·.values.find? name))
  | .buffer bytes =>
    let b ← createBuffer bytes none
    return .object (← allocate { context := frame.context, kind := .arrayBuffer b })
  | .error name message => return .object (← createError frame.context name message)
  | .function closure =>
    return .object (← allocate
      { context := frame.context, kind := .function closure.name (.closure closure) 0 })
  | .stock code data =>
    return .object (← allocate
      { context := frame.context, kind := .function code.name (.stock code) data })
  | .file bytes => return .string (← createFile bytes)
  | .global => keep (.object (← context frame.context).global)
  | .path start keys => follow run frame.context (← eval frame start) keys
  | .argument index => return frame.call.arg index
  | .receiver => return frame.call.receiver
  | .argumentCount => return .number (Float.ofNat frame.call.args.length)
  | .isNew => return .bool frame.call.isConstructCall

/-- Evaluates expressions one after the other. -/
def evalAll (frame : Frame) (es : List Expr) : Engine (List ForeignValue) := do
  match es with
  | [] => return []
  | e :: rest =>
    let v ← eval frame e
    return v :: (← evalAll frame rest)

/-- Evaluates the entries of an object and assigns each. -/
def evalEntries (frame : Frame) (id : ObjectId) (entries : List (String × Expr)) :
    Engine Unit := do
  match entries with
  | [] => return
  | (key, e) :: rest =>
    setProperty run frame.context id key (← eval frame e)
    evalEntries frame id rest

end

/-- Evaluates an expression that may be missing. -/
def evalOr (frame : Frame) (default : ForeignValue) : Option Expr → Engine ForeignValue
  | some e => eval run frame e
  | none => return default

/-- Evaluates an expression for an object. -/
def evalObject (frame : Frame) (e : Expr) : Engine ObjectId := do
  match ← eval run frame e with
  | .object id => return id
  | _ => fail "bad_input" "expected an object"

/-- Builds a native value from a recipe. -/
def buildValue (r : Recipe) : Engine NativeValue := do
  match ← build r with
  | some v =>
    hold v.refs
    return v
  | none => fail "bad_input" "unknown name"

/-- Builds native values from recipes. -/
def buildValues (rs : List Recipe) : Engine (List NativeValue) := do
  match ← buildAll rs with
  | some vs =>
    hold (NativeValue.refsIn vs)
    return vs
  | none => fail "bad_input" "unknown name"

/-- Changes the names of the session. -/
def modifyRoots (f : Roots → Roots) : Engine Unit :=
  modify fun w => { w with roots := f w.roots }

/-- Names a foreign value. -/
def assign (name : String) (v : ForeignValue) : Engine Unit := do
  let old := (← get).roots.values.find? name
  modifyRoots fun r => { r with values := r.values.put name v }
  letGo (refsOf ForeignValue.refs old)

/-- Names a native value. -/
def assignNative (name : String) (v : NativeValue) : Engine Unit := do
  let old := (← get).roots.natives.find? name
  modifyRoots fun r => { r with natives := r.natives.put name v }
  letGo (refsOf NativeValue.refs old)

end Isthmus.Session
