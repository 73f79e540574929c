import Isthmus.Native.Value

/-!
# Native/Recipe — instructions for building native values

A recipe says how to build a value.  Buffers, instances and matrices are made afresh each time; named
deferreds and values are looked up at that moment.
-/

namespace Isthmus

/-- How to build a native value. -/
inductive Recipe where
  | void
  | bool (value : Bool)
  | int (value : Int32)
  | double (value : Float)
  | string (value : String)
  | buffer (bytes : Array UInt8)
  | list (items : List Recipe)
  | variant (content : Recipe)
  /-- An instance of no known class under a given tag. -/
  | stranger (type : TypeId)
  | matrix (rows cols channels : Nat) (samples : Array UInt8)
  | deferred (name : String)
  | named (name : String)
  deriving Inhabited

end Isthmus
