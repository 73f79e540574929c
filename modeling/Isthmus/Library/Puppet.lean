import Isthmus.Descriptor.Basic
import Isthmus.Native.Deferred
import Isthmus.Native.Error
import Isthmus.Native.Recipe

/-!
# Library/Puppet — classes that act as told

A plan gives a puppet class its descriptor, and says for each method what calling it does and for each
property how it starts and whether it may be written.
-/

namespace Isthmus.Puppet

/-- What calling a method does. -/
inductive Behaviour where
  | returns (result : Recipe)
  | fails (e : NativeError)
  /-- Gives back one of the arguments. -/
  | echo (index : Nat)
  /-- Gives back all arguments. -/
  | all
  /-- Gives a deferred that a background job completes, or drops. -/
  | background (outcome : Option (DeferredStatus × Recipe))
  /-- Fires an event with the arguments. -/
  | emit (event : Nat)
  /-- Fires an event with the arguments from a background job. -/
  | spawnEmit (event : Nat)
  /-- Puts the first argument into a property slot. -/
  | store (slot : Nat)
  /-- Gives what a property slot holds. -/
  | load (slot : Nat)

/-- A property of a puppet. -/
structure Slot where
  initial : Option Recipe := none
  accepts : Bool := true

/-- The plan of a puppet class. -/
structure Plan where
  descriptor : TypeDescriptor := { name := "Unplanned" }
  /-- By method index; a method without behaviour is unknown. -/
  behaviours : List (Option Behaviour) := []
  /-- By property index. -/
  slots : List Slot := []
  hasSource : Bool := true

/-- What calling the method at an index does. -/
def Plan.behaviour? (p : Plan) (index : Nat) : Option Behaviour :=
  p.behaviours[index]?.join

end Isthmus.Puppet
