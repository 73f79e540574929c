/-!
# Native/Error — failures of native members
-/

namespace Isthmus

/-- Why a native member failed. -/
inductive NativeError where
  | typeMismatch (expected got : String)
  | argument (text : String)
  | unknownMember (index : Nat)
  | invocation (text : String)
  | other (text : String)
  deriving DecidableEq, Repr

namespace NativeError

/-- The name of the kind of failure. -/
def kind : NativeError → String
  | typeMismatch .. => "TypeMismatch"
  | argument _ => "ArgumentError"
  | unknownMember _ => "UnknownMember"
  | invocation _ => "InvocationFailed"
  | other _ => "Other"

/-- The text shown for a failure. -/
def message : NativeError → String
  | typeMismatch expected got => "Type mismatch: expected " ++ expected ++ ", got " ++ got
  | argument text => "Argument error: " ++ text
  | unknownMember index => "No member at index " ++ toString index
  | invocation text => "Invocation failed: " ++ text
  | other text => text

end NativeError

end Isthmus
