import Isthmus.Native.Extract

/-!
# Native/Member — running native members

A member gets its arguments as a list.  Asking for one that is not there is a fault of the caller
and not a failure of the member, so `Fault` keeps the two apart.
-/

namespace Isthmus

/-- Why running a member gave no value. -/
inductive Fault where
  /-- The member reports a failure. -/
  | error (e : NativeError)
  /-- The member asked for an argument beyond the end of the list. -/
  | missingArgument (index count : Nat)
  deriving DecidableEq, Repr

/-- The argument at an index. -/
def argument (args : List NativeValue) (index : Nat) : Except Fault NativeValue :=
  match args[index]? with
  | some v => .ok v
  | none => .error (.missingArgument index args.length)

/-- The argument at an index, read by one of the typed readers. -/
def argumentAs {α : Type} (read : NativeValue → Except NativeError α) (args : List NativeValue)
    (index : Nat) : Except Fault α := do
  match read (← argument args index) with
  | .ok a => .ok a
  | .error e => .error (.error e)

end Isthmus
