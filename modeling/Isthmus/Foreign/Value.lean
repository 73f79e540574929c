import Isthmus.Number.Exact
import Isthmus.Number.Shortest

/-!
# Foreign/Value — dynamically typed values on the foreign side

A value is a primitive or refers to an object of some context.  Numbers are doubles.
-/

namespace Isthmus

/-- The identity of a foreign object. -/
structure ObjectId where
  index : Nat
  deriving DecidableEq, Repr, Inhabited

/-- A value of foreign code. -/
inductive ForeignValue where
  | undefined
  | null
  | bool (value : Bool)
  | number (value : Float)
  | string (value : String)
  | object (id : ObjectId)
  deriving Inhabited

namespace ForeignValue

/-- The value stands for nothing. -/
def isNullish : ForeignValue → Bool
  | undefined | null => true
  | _ => false

def asBool? : ForeignValue → Option Bool
  | bool b => some b
  | _ => none

def asNumber? : ForeignValue → Option Float
  | number n => some n
  | _ => none

def asString? : ForeignValue → Option String
  | string s => some s
  | _ => none

def asObject? : ForeignValue → Option ObjectId
  | object o => some o
  | _ => none

/-- Equality without conversion: numbers as numbers, objects by identity. -/
def strictEquals : ForeignValue → ForeignValue → Bool
  | undefined, undefined => true
  | null, null => true
  | bool a, bool b => a == b
  | number a, number b => a == b
  | string a, string b => a == b
  | object a, object b => a == b
  | _, _ => false

end ForeignValue

/-- The text of a number as foreign code shows it: whole numbers below `10 ^ 15` without sign of
zero, all others positionally. -/
def numberText (x : Float) : String :=
  match Number.decode? x with
  | some e =>
    if e.isWhole && e.floorAbs < 1000000000000000 then toString (e.signed e.floorAbs) else Number.plain x
  | none => if x.isNaN then "NaN" else if x < 0 then "-Infinity" else "Infinity"

end Isthmus
