import Isthmus.Engine.Runner
import Isthmus.Text.Numeral
import Isthmus.World.Describe
import Isthmus.World.Lookup

/-!
# Engine/Property — reading, assigning and defining properties

Arrays answer for their length and their indices themselves.  Otherwise the definition nearest to the
object decides: a getter or setter runs with the object as its receiver, a read-only property refuses
assignment, and any other assignment goes to the object itself.
-/

namespace Isthmus.Engine

variable (run : Runner)

/-- The text of a value. -/
def describe (v : ForeignValue) : Engine String := do
  match (← get).describe? v with
  | some s => return s
  | none => throw .exhausted

/-- What an array answers for a name, if it answers for it itself. -/
def arrayAnswer? (o : Object) (name : String) : Option ForeignValue := do
  let items ← o.items?
  if name = "length" then return .number (Float.ofNat items.length)
  let index ← Text.numeral? name.toList
  return items[index]?.getD .undefined

/-- Reads a property of an object. -/
def getProperty (cx : ContextId) (id : ObjectId) (name : String) : Engine ForeignValue := do
  checkOwned cx id
  let o ← object id
  match arrayAnswer? o name with
  | some v => keep v
  | none =>
    match (← get).lookup id name with
    | some (.data v _ _, _) => keep v
    | some (.accessor (some getter) _ data _, _) =>
      run.call cx getter.callback { receiver := .object id, data }
    | _ => return .undefined

/-- Reads a property of any value. -/
def getValue (cx : ContextId) (v : ForeignValue) (name : String) : Engine ForeignValue := do
  match v with
  | .object id => getProperty run cx id name
  | .string s => return if name = "length" then .number (Float.ofNat s.length) else .undefined
  | .undefined | .null =>
    raiseTypeError cx ("Cannot read properties of " ++ (← describe v) ++ " (reading '" ++ name ++
      "')")
  | _ => return .undefined

/-- Assigns a property of an object. -/
def setProperty (cx : ContextId) (id : ObjectId) (name : String) (v : ForeignValue) :
    Engine Unit := do
  checkOwned cx id
  match (← get).lookup id name with
  | some (.accessor _ (some setter) data _, _) =>
    let _ ← run.call cx setter.callback { receiver := .object id, args := [v], data }
  | some (.accessor _ none _ _, _) =>
    raiseTypeError cx ("Cannot set property " ++ name ++ " which has only a getter")
  | some (.data _ false _, _) =>
    raiseTypeError cx ("Cannot assign to read only property '" ++ name ++ "'")
  | some (.data _ true enumerable, true) => putOwn id name (.data v true enumerable)
  | _ => putOwn id name (.plain v)

/-! ## Definitions -/

/-- What a definition makes of a name. -/
inductive Member where
  | method (code : Callback) (data : Nat)
  | accessor (getter setter : Option Accessor) (data : Nat)
  | value (v : ForeignValue)

/-- A property to define. -/
structure Definition where
  name : String
  member : Member
  isStatic : Bool := false
  readOnly : Bool := false

namespace Definition

/-- A property that is a value may be assigned unless it is read-only; an accessor needs a setter. -/
def writable (d : Definition) : Bool :=
  !d.readOnly &&
    match d.member with
    | .accessor _ setter _ => setter.isSome
    | _ => true

/-- All properties but methods are listed among the keys. -/
def enumerable (d : Definition) : Bool :=
  match d.member with
  | .method .. => false
  | _ => true

end Definition

/-- Defines one property of an object. -/
def define (cx : ContextId) (id : ObjectId) (d : Definition) : Engine Unit := do
  match d.member with
  | .method code data =>
    let f ← allocate { context := cx, kind := .function d.name code data }
    putOwn id d.name (.data (.object f) d.writable d.enumerable)
  | .accessor getter setter data => putOwn id d.name (.accessor getter setter data d.enumerable)
  | .value v => putOwn id d.name (.data v d.writable d.enumerable)

/-- Defines properties of an object. -/
def defineAll (cx : ContextId) (id : ObjectId) (ds : List Definition) : Engine Unit := do
  checkOwned cx id
  ds.forM (define cx id)

/-- Defines a class: a function with a prototype object, which refers back to it.  Static properties
go to the function, all others to the prototype. -/
def defineClass (cx : ContextId) (name : String) (code : Callback) (data : Nat)
    (ds : List Definition) : Engine ObjectId := do
  let cls ← allocate { context := cx, kind := .function name code data }
  let proto ← allocate { context := cx }
  putOwn proto "constructor" (.data (.object cls) true false)
  putOwn cls "prototype" (.data (.object proto) false false)
  ds.forM fun d => define cx (if d.isStatic then cls else proto) d
  return cls

end Isthmus.Engine
