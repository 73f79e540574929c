/-!
# Type/Id — the numbers that tag native values

Ids below `TypeId.firstRegistered` are built in; the others are handed out by a `TypeTable`.
-/

namespace Isthmus

/-- Names the type of a native value. -/
structure TypeId where
  raw : Nat
  deriving DecidableEq, Repr, Inhabited

namespace TypeId

abbrev void : TypeId := ⟨0⟩
abbrev variant : TypeId := ⟨1⟩
abbrev bool : TypeId := ⟨2⟩
abbrev int : TypeId := ⟨3⟩
abbrev double : TypeId := ⟨4⟩
abbrev string : TypeId := ⟨5⟩
abbrev buffer : TypeId := ⟨6⟩
abbrev list : TypeId := ⟨7⟩
abbrev deferred : TypeId := ⟨8⟩

/-- The first id a table hands out. -/
def firstRegistered : Nat := 64

/-- The id is reserved for built-in types. -/
def isBuiltin (t : TypeId) : Bool :=
  t.raw < firstRegistered

/-- The built-in types and their names. -/
def builtins : List (TypeId × String) :=
  [(void, "void"), (variant, "variant"), (bool, "bool"), (int, "int"), (double, "double"),
    (string, "string"), (buffer, "buffer"), (list, "list"), (deferred, "deferred")]

end TypeId

end Isthmus
