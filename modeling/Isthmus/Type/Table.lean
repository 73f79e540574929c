import Isthmus.Type.Id

/-!
# Type/Table — ids of registered types

A table is the list of registered types with their names, in order of first registration; the id of
a type is its place in that list, counted from `TypeId.firstRegistered`.  So an id, once given, never
moves, and a name belongs to the first type registered under it.
-/

namespace Isthmus

/-- The types registered so far, oldest first. -/
structure TypeTable (τ : Type) where
  entries : List (τ × String) := []

namespace TypeTable

variable {τ : Type} [DecidableEq τ]

/-- The id at a place of the table. -/
def idAt (i : Nat) : TypeId :=
  ⟨TypeId.firstRegistered + i⟩

/-- The id of a registered type. -/
def idOf (t : TypeTable τ) (key : τ) : Option TypeId :=
  (t.entries.findIdx? (·.1 = key)).map idAt

/-- The type with an id. -/
def typeAt (t : TypeTable τ) (id : TypeId) : Option τ :=
  if TypeId.firstRegistered ≤ id.raw then
    (t.entries[id.raw - TypeId.firstRegistered]?).map (·.1)
  else none

/-- Registers a type, unless it already has an id, and answers its id. -/
def register (t : TypeTable τ) (key : τ) (name : String) : TypeId × TypeTable τ :=
  match t.idOf key with
  | some id => (id, t)
  | none => (idAt t.entries.length, ⟨t.entries ++ [(key, name)]⟩)

/-- The name of an id; an id that nothing has is named by its number. -/
def name (t : TypeTable τ) (id : TypeId) : String :=
  match TypeId.builtins.find? (·.1 = id) with
  | some (_, name) => name
  | none =>
    let registered :=
      if TypeId.firstRegistered ≤ id.raw then t.entries[id.raw - TypeId.firstRegistered]? else none
    match registered with
    | some (_, name) => name
    | none => "#" ++ toString id.raw

/-- The id a name stands for: a built-in type before the first type registered under it. -/
def lookup (t : TypeTable τ) (name : String) : Option TypeId :=
  match TypeId.builtins.find? (·.2 = name) with
  | some (id, _) => some id
  | none => (t.entries.findIdx? (·.2 = name)).map idAt

end TypeTable

end Isthmus
