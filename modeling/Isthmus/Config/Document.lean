/-!
# Config/Document — what a configuration text says

A document is a tree of tables.  A table remembers how it came to be, because that decides who may
still add to it: an inline table is closed, a table with a header of its own takes no second header,
and a table made by dotted keys takes neither a header nor plain keys of another table.
-/

namespace Isthmus.Config

/-- How a table came to be. -/
inductive TableForm where
  /-- It is the document itself or has a header. -/
  | headed
  /-- It is only named on the way to another table's header. -/
  | implied
  /-- It was made by a dotted key. -/
  | dotted
  /-- It was written in braces. -/
  | inline
  deriving DecidableEq, Repr

/-- A value of a document.  Floats and points in time are told apart, but nothing reads them. -/
inductive Node where
  | integer (value : Int)
  | float
  | boolean (value : Bool)
  | moment
  | string (value : String)
  | array (items : List Node)
  | table (form : TableForm) (entries : List (String × Node))
  /-- The tables under one repeated header, the newest first. -/
  | tables (newest : List (String × Node)) (older : List Node)
  deriving Inhabited

/-- The entries of a table, in the order of writing. -/
abbrev Entries := List (String × Node)

namespace Entries

/-- The value under a key. -/
def find? (es : Entries) (key : String) : Option Node :=
  (List.find? (·.1 = key) es).map (·.2)

/-- Puts a value under a key, in the place of the one that is there. -/
def put (es : Entries) (key : String) (v : Node) : Entries :=
  if (find? es key).isSome then es.map fun e => if e.1 = key then (key, v) else e
  else es ++ [(key, v)]

/-- Changes the entries of the table at the end of a path.  Tables that are missing on the way are
made; `dotted` says whether the path belongs to a dotted key or to a header. -/
def alter (dotted : Bool) (change : TableForm → Entries → Option Entries) :
    List String → TableForm → Entries → Option Entries
  | [], form, es => change form es
  | key :: path, _, es =>
    match find? es key with
    | none => do
      let form := if dotted then .dotted else .implied
      let inner ← alter dotted change path form []
      return put es key (.table form inner)
    | some (.table form inner) => do
      if form = .inline ∨ dotted ∧ form = .headed then none
      let inner ← alter dotted change path form inner
      return put es key (.table form inner)
    | some (.tables newest older) => do
      let newest ← alter dotted change path .headed newest
      return put es key (.tables newest older)
    | some _ => none

/-- Adds a value under a dotted key, given as its path and its last part. -/
def addValue (form : TableForm) (es : Entries) (path : List String) (key : String) (v : Node) :
    Option Entries :=
  alter true (fun form es =>
    if (form = .dotted ↔ path = []) ∨ (find? es key).isSome then none else some (put es key v))
    path form es

/-- Opens the table of a header. -/
def openTable (es : Entries) (path : List String) (key : String) : Option Entries :=
  alter false (fun _ es =>
    match find? es key with
    | none => some (put es key (.table .headed []))
    | some (.table .implied inner) => some (put es key (.table .headed inner))
    | some _ => none) path .headed es

/-- Opens one more table of a repeated header. -/
def openRepeated (es : Entries) (path : List String) (key : String) : Option Entries :=
  alter false (fun _ es =>
    match find? es key with
    | none => some (put es key (.tables [] []))
    | some (.tables newest older) => some (put es key (.tables [] (.table .headed newest :: older)))
    | some _ => none) path .headed es

/-- Changes the entries of the table that was opened last under a header. -/
def alterOpen (change : TableForm → Entries → Option Entries) (path : List String) (es : Entries) :
    Option Entries :=
  alter false change path .headed es

end Entries

end Isthmus.Config
