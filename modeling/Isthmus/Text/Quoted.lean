import Isthmus.Text.Unprintable

/-!
# Text/Quoted — double-quoted text with escapes

Quotes and backslashes are escaped, tab, line ends and NUL have short forms, and every character
that would not show is written by its code point.
-/

namespace Isthmus.Text

/-- The digits of `n` in lowercase hexadecimal. -/
def hex (n : Nat) : String :=
  String.ofList (Nat.toDigits 16 n)

/-- One character between double quotes. -/
def escape (c : Char) : List Char :=
  match c with
  | '\t' => ['\\', 't']
  | '\r' => ['\\', 'r']
  | '\n' => ['\\', 'n']
  | '\\' => ['\\', '\\']
  | '"' => ['\\', '"']
  | '\x00' => ['\\', '0']
  | c =>
    if isUnprintable c then ['\\', 'u', '\x7b'] ++ Nat.toDigits 16 c.toNat ++ ['\x7d'] else [c]

/-- Text between double quotes, escaped. -/
def quoted (s : String) : String :=
  String.ofList ('"' :: s.toList.flatMap escape ++ ['"'])

end Isthmus.Text
