import Isthmus.Number.Exact

/-!
# Number/Shortest — the fewest decimal digits that read back

`shortest` picks, among all decimals that round to the given double, one with the fewest digits, and
of those the nearest.  `plain` writes it positionally: no exponent, and no point on a whole number.
-/

namespace Isthmus.Number

/-- The reals that round to one double: `lo / den … hi / den` around `value / den`. -/
structure Interval where
  lo : Nat
  value : Nat
  hi : Nat
  den : Nat
  /-- The ends belong to the interval. -/
  closed : Bool

namespace Interval

/-- The interval of a positive double; below a power of two the grid is twice as fine. -/
def ofExact (x : Exact) : Interval :=
  let below := if x.mantissa = twoPow 52 ∧ -1074 < x.exponent then 1 else 2
  let exponent := x.exponent - 2
  let (scale, den) :=
    if 0 ≤ exponent then (twoPow exponent.toNat, 1) else (1, twoPow (-exponent).toNat)
  { lo := (4 * x.mantissa - below) * scale
    value := 4 * x.mantissa * scale
    hi := (4 * x.mantissa + 2) * scale
    den
    closed := x.mantissa % 2 == 0 }

/-- A point of the grid of multiples of `10 ^ k` inside the interval: the nearer neighbour of the
value, the upper one on a tie. -/
def onGrid (i : Interval) (k : Int) : Option Nat :=
  let (up, down) := if 0 ≤ k then (Nat.pow 10 k.toNat, 1) else (1, Nat.pow 10 (-k).toNat)
  let unit := up * i.den
  let value := i.value * down
  let d := value / unit
  let inside (n : Nat) : Bool :=
    if i.closed then i.lo * down ≤ n * unit && n * unit ≤ i.hi * down
    else i.lo * down < n * unit && n * unit < i.hi * down
  match 0 < d && inside d, inside (d + 1) with
  | true, true => some (if 2 * (value - d * unit) < unit then d else d + 1)
  | true, false => some d
  | false, true => some (d + 1)
  | false, false => none

/-- The first grid with a point, from `10 ^ k` downward. -/
def coarsest (i : Interval) : Nat → Int → Nat × Int
  | 0, k => (0, k)
  | fuel + 1, k =>
    match i.onGrid k with
    | some d => (d, k)
    | none => coarsest i fuel (k - 1)

end Interval

/-- Moves trailing zeros of the digits into the exponent. -/
def stripZeros : Nat → Nat → Int → Nat × Int
  | 0, d, k => (d, k)
  | fuel + 1, d, k => if d ≠ 0 ∧ d % 10 = 0 then stripZeros fuel (d / 10) (k + 1) else (d, k)

/-- Digits and decimal exponent of the shortest decimal of a positive double. -/
def shortest (x : Exact) : Nat × Int :=
  let i := Interval.ofExact x
  let top : Int := (Nat.toDigits 10 i.value).length - (Nat.toDigits 10 i.den).length + 1
  let (d, k) := i.coarsest 24 top
  stripZeros 24 d k

/-- The decimal `d · 10 ^ k` written positionally. -/
def positional (d : Nat) (k : Int) : String :=
  let digits := Nat.toDigits 10 d
  if 0 ≤ k then String.ofList (digits ++ List.replicate k.toNat '0')
  else
    let places := (-k).toNat
    let padded := List.replicate (places + 1 - digits.length) '0' ++ digits
    let split := padded.length - places
    String.ofList (padded.take split ++ '.' :: padded.drop split)

/-- The shortest positional decimal of a double, with `NaN`, `inf` and the sign of zero. -/
def plain (x : Float) : String :=
  match decode? x with
  | some e =>
    let sign := if e.negative then "-" else ""
    if e.mantissa = 0 then sign ++ "0"
    else
      let (d, k) := shortest e
      sign ++ positional d k
  | none => if x.isNaN then "NaN" else if x < 0 then "-inf" else "inf"

end Isthmus.Number
