import Isthmus.Document.Basic
import Isthmus.Number.Shortest
import Isthmus.Text.Hex

/-!
# Document/Pretty — documents as indented JSON

Each item and each field stands on a line of its own, two blanks deeper than what it is part of, and the
fields of a record are sorted by name.
-/

namespace Isthmus.Document

/-- A character inside a JSON string. -/
def jsonChar (c : Char) : List Char :=
  match c with
  | '"' => ['\\', '"']
  | '\\' => ['\\', '\\']
  | '\n' => ['\\', 'n']
  | '\r' => ['\\', 'r']
  | '\t' => ['\\', 't']
  | '\x08' => ['\\', 'b']
  | '\x0c' => ['\\', 'f']
  | c =>
    if c.toNat < 32 then ['\\', 'u', '0', '0'] ++ Text.hexByte (UInt8.ofNat c.toNat) else [c]

/-- A JSON string. -/
def jsonString (s : String) : String :=
  "\"" ++ String.ofList (s.toList.flatMap jsonChar) ++ "\""

/-- A JSON number; a double keeps a point, and one that is not finite has no form. -/
def jsonDouble (x : Float) : String :=
  if x.isFinite then
    let text := Number.plain x
    if text.contains '.' then text else text ++ ".0"
  else "null"

/-- The blanks before a line at a depth. -/
def indent (depth : Nat) : String :=
  String.ofList (List.replicate (2 * depth) ' ')

/-- Parts between brackets, one a line. -/
def bracket (depth : Nat) (before after : String) (parts : List String) : String :=
  if parts.isEmpty then before ++ after
  else
    before ++ "\n" ++ ",\n".intercalate (parts.map (indent (depth + 1) ++ ·)) ++ "\n" ++
      indent depth ++ after

mutual

/-- A document that is part of others at a depth. -/
def prettyAt (depth : Nat) : Document → String
  | null => "null"
  | bool b => if b then "true" else "false"
  | int i => toString i
  | double x => jsonDouble x
  | text s => jsonString s
  | list items => bracket depth "[" "]" (prettyItems (depth + 1) items)
  | record fields =>
    let parts := (prettyFields (depth + 1) fields).mergeSort fun a b => a.1 ≤ b.1
    bracket depth "\x7b" "\x7d" (parts.map fun (name, value) => jsonString name ++ ": " ++ value)

/-- The items of a list. -/
def prettyItems (depth : Nat) : List Document → List String
  | [] => []
  | d :: rest => prettyAt depth d :: prettyItems depth rest

/-- The fields of a record: names and values. -/
def prettyFields (depth : Nat) : List (String × Document) → List (String × String)
  | [] => []
  | (name, d) :: rest => (name, prettyAt depth d) :: prettyFields depth rest

end

/-- A document as indented JSON. -/
def pretty (d : Document) : String :=
  d.prettyAt 0

end Isthmus.Document
