import Isthmus.Descriptor.Basic
import Isthmus.Native.Member

/-!
# Library/Calculator — arithmetic with a memory
-/

namespace Isthmus

/-- A calculator: its memory, how often it was called, and the value it remembers. -/
structure Calculator where
  memory : Float := 0.0
  calls : Int32 := 0
  last : Option NativeValue := none

namespace Calculator

def descriptor : TypeDescriptor :=
  ({ name := "Calculator" } : TypeDescriptor)
    |>.method "add" [.int, .int] .int
    |>.method "subtract" [.int, .int] .int
    |>.method "divide" [.double, .double] .double
    |>.method "concat" [.string, .string] .string
    |>.method "sum" [.list] .double
    |>.method "remember" [.variant] .void
    |>.static "square" [.int] .int
    |>.property "memory" .double
    |>.readonly "calls" .int
    |>.property "last" .variant
    |>.constant "PI" (.double (Float.ofBits 0x400921fb54442d18))
    |>.constant "VERSION" (.string "1")

/-- A whole number as a 32-bit value, if it is one. -/
def checked (i : Int) : Except Fault NativeValue :=
  if -2147483648 ≤ i ∧ i ≤ 2147483647 then .ok (.int (.ofInt i))
  else .error (.error (.invocation "integer overflow"))

/-- The sum of the items, read as doubles, from the left. -/
def sumFrom (nameOf : TypeId → String) (total : Float) : List NativeValue → Except NativeError Float
  | [] => .ok total
  | v :: rest => do
    let d ← v.toDouble nameOf
    sumFrom nameOf (total + d) rest

/-- The result of a method by its index, and the value to remember from it. -/
def evaluate (nameOf : TypeId → String) (index : Nat) (args : List NativeValue) :
    Except Fault (NativeValue × Option NativeValue) :=
  match index with
  | 0 => do
    let a ← argumentAs (·.toInt nameOf) args 0
    let b ← argumentAs (·.toInt nameOf) args 1
    return (← checked (a.toInt + b.toInt), none)
  | 1 => do
    let a ← argumentAs (·.toInt nameOf) args 0
    let b ← argumentAs (·.toInt nameOf) args 1
    return (← checked (a.toInt - b.toInt), none)
  | 2 => do
    let a ← argumentAs (·.toDouble nameOf) args 0
    let b ← argumentAs (·.toDouble nameOf) args 1
    if b == 0.0 then throw (.error (.invocation "division by zero"))
    return (.double (a / b), none)
  | 3 => do
    let a ← argumentAs (·.toText nameOf) args 0
    let b ← argumentAs (·.toText nameOf) args 1
    return (.string (a ++ b), none)
  | 4 => do
    let total ← argumentAs (fun v => do sumFrom nameOf 0.0 (← v.toItems nameOf)) args 0
    return (.double total, none)
  | 5 => do
    let v ← argument args 0
    return (.void, some v.unwrap)
  | _ => .error (.error (.unknownMember index))

/-- Runs a method by its index; every call counts. -/
def invoke (nameOf : TypeId → String) (c : Calculator) (index : Nat) (args : List NativeValue) :
    Except Fault NativeValue × Calculator :=
  let c := { c with calls := c.calls + 1 }
  match evaluate nameOf index args with
  | .ok (v, some kept) => (.ok v, { c with last := some kept })
  | .ok (v, none) => (.ok v, c)
  | .error f => (.error f, c)

/-- Runs a static method by its index. -/
def invokeStatic (nameOf : TypeId → String) (index : Nat) (args : List NativeValue) :
    Except Fault NativeValue :=
  match index with
  | 6 => do
    let n ← argumentAs (·.toInt nameOf) args 0
    checked (n.toInt * n.toInt)
  | _ => .error (.error (.unknownMember index))

/-- Reads a property by its index. -/
def read (c : Calculator) : Nat → Option NativeValue
  | 0 => some (.double c.memory)
  | 1 => some (.int c.calls)
  | 2 => some (c.last.getD .void)
  | _ => none

/-- Writes a property by its index: only the memory, and only from a double. -/
def write (c : Calculator) (index : Nat) (v : NativeValue) : Option Calculator :=
  match index, v with
  | 0, .double d => some { c with memory := d }
  | _, _ => none

end Calculator

end Isthmus
