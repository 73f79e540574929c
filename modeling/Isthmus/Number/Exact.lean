/-!
# Number/Exact — doubles as exact dyadic rationals

A finite double is `± m · 2 ^ e` with natural `m`.  Everything that asks for a whole number
(`integer?`, `int32?`, `truncate`, `toNat`, `toSample`) is decided on that form, in exact
arithmetic, so no rounding enters; `ofInt` goes the other way and is exact below `2 ^ 53`.
-/

namespace Isthmus.Number

/-- The power of two with a natural exponent. -/
def twoPow (n : Nat) : Nat :=
  Nat.pow 2 n

/-- A finite double, exactly: `± mantissa · 2 ^ exponent`. -/
structure Exact where
  negative : Bool
  mantissa : Nat
  exponent : Int
  deriving DecidableEq, Repr

namespace Exact

/-- The largest whole number that is at most the absolute value. -/
def floorAbs (x : Exact) : Nat :=
  if 0 ≤ x.exponent then x.mantissa * twoPow x.exponent.toNat
  else x.mantissa / twoPow (-x.exponent).toNat

/-- No part is lost by `floorAbs`. -/
def isWhole (x : Exact) : Bool :=
  if 0 ≤ x.exponent then true else x.mantissa % twoPow (-x.exponent).toNat == 0

/-- The nearest whole number to the absolute value, a half going up. -/
def roundAbs (x : Exact) : Nat :=
  if 0 ≤ x.exponent then x.mantissa * twoPow x.exponent.toNat
  else (2 * x.mantissa + twoPow (-x.exponent).toNat) / (2 * twoPow (-x.exponent).toNat)

/-- Puts the sign back on a whole number. -/
def signed (x : Exact) (n : Nat) : Int :=
  if x.negative then -(n : Int) else n

end Exact

/-- The exact value of a double; `none` for NaN and the infinities. -/
def decode? (x : Float) : Option Exact :=
  let bits := x.toBits.toNat
  let negative := bits / twoPow 63 == 1
  let biased : Nat := bits / twoPow 52 % twoPow 11
  let fraction : Nat := bits % twoPow 52
  if biased = 2047 then none
  else if biased = 0 then some ⟨negative, fraction, -1074⟩
  else some ⟨negative, twoPow 52 + fraction, (biased : Int) - 1075⟩

/-- The bits of the double with the given sign and magnitude, for magnitudes below `2 ^ 53`. -/
def bitsOfNat (negative : Bool) (n : Nat) : Nat :=
  let sign := if negative then twoPow 63 else 0
  if n = 0 then sign
  else sign + (1023 + n.log2) * twoPow 52 + (n * twoPow (52 - n.log2) - twoPow 52)

/-- The double equal to a whole number of magnitude below `2 ^ 53`. -/
def ofInt (i : Int) : Float :=
  Float.ofBits (UInt64.ofNat (bitsOfNat (decide (i < 0)) i.natAbs))

/-- The double of a 32-bit integer. -/
def ofInt32 (i : Int32) : Float :=
  ofInt i.toInt

/-- A double that is a whole number, as that number. -/
def integer? (x : Float) : Option Int :=
  match decode? x with
  | some e => if e.isWhole then some (e.signed e.floorAbs) else none
  | none => none

/-- `i` lies in the range of 32-bit integers. -/
def InInt32 (i : Int) : Prop :=
  -2147483648 ≤ i ∧ i ≤ 2147483647

instance (i : Int) : Decidable (InInt32 i) :=
  inferInstanceAs (Decidable (_ ∧ _))

/-- A double that is a whole number in the range of 32-bit integers, as that integer. -/
def int32? (x : Float) : Option Int32 :=
  match integer? x with
  | some i => if InInt32 i then some (Int32.ofInt i) else none
  | none => none

/-- The finite double `x` lies between the least and the greatest 32-bit integer. -/
def withinInt32 (x : Float) : Bool :=
  x.isFinite && ofInt (-2147483648) ≤ x && x ≤ ofInt 2147483647

/-- The whole part of a double within the 32-bit range, toward zero. -/
def truncate (x : Float) : Int32 :=
  match decode? x with
  | some e => Int32.ofInt (e.signed e.floorAbs)
  | none => 0

/-- The whole part of a double, clamped to the range of 64-bit sizes; NaN counts as zero. -/
def toNat (x : Float) : Nat :=
  match decode? x with
  | some e => if e.negative then 0 else min e.floorAbs (twoPow 64 - 1)
  | none => if x.isNaN || x < 0 then 0 else twoPow 64 - 1

/-- The nearest byte to a double, a half going up; NaN counts as zero. -/
def toSample (x : Float) : UInt8 :=
  match decode? x with
  | some e => if e.negative then 0 else UInt8.ofNat (min e.roundAbs 255)
  | none => if x.isNaN || x < 0 then 0 else 255

end Isthmus.Number
