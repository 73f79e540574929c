/-!
# Text/Hex — bytes as hexadecimal text

Each byte is written with two lowercase digits.
-/

namespace Isthmus.Text

/-- The digit of a value below sixteen. -/
def hexDigit (n : Nat) : Char :=
  Nat.digitChar n

/-- The two digits of a byte. -/
def hexByte (b : UInt8) : List Char :=
  [hexDigit (b.toNat / 16), hexDigit (b.toNat % 16)]

/-- The digits of a byte string. -/
def hexBytes (bytes : Array UInt8) : String :=
  String.ofList (bytes.toList.flatMap hexByte)

end Isthmus.Text
