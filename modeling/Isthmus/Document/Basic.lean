/-!
# Document/Basic — structured output

What a listing, a report or a step of a session says, as a tree.
-/

namespace Isthmus

/-- A structured document. -/
inductive Document where
  | null
  | bool (value : Bool)
  | int (value : Int)
  | double (value : Float)
  | text (value : String)
  | list (items : List Document)
  | record (fields : List (String × Document))
  deriving Inhabited

namespace Document

/-- A document that may be missing. -/
def ofOption : Option Document → Document
  | some d => d
  | none => null

/-- A count. -/
def nat (n : Nat) : Document :=
  int n

/-- A list of texts. -/
def texts (items : List String) : Document :=
  list (items.map text)

end Document

end Isthmus
