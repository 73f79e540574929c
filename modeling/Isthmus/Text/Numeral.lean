/-!
# Text/Numeral — decimal numerals of 64-bit sizes

A numeral is an optional plus sign and at least one digit; leading zeros count, and a value that
does not fit into 64 bits is refused.
-/

namespace Isthmus.Text

/-- The value of a decimal digit. -/
def digit? (c : Char) : Option Nat :=
  if '0' ≤ c ∧ c ≤ '9' then some (c.toNat - '0'.toNat) else none

/-- The value of a run of digits, read from the left onto `n`. -/
def digitsFrom (n : Nat) : List Char → Option Nat
  | [] => some n
  | c :: rest => (digit? c).bind fun d => digitsFrom (10 * n + d) rest

/-- A numeral below `2 ^ 64`. -/
def numeral? (cs : List Char) : Option Nat :=
  let digits := match cs with
    | '+' :: rest => rest
    | _ => cs
  if digits.isEmpty then none
  else (digitsFrom 0 digits).filter (· < UInt64.size)

end Isthmus.Text
