import Isthmus.Descriptor.Basic
import Isthmus.Native.Member

/-!
# Library/Matrix — pixel matrices

Row-major samples of eight bits, some channels a pixel, in a shared buffer.  The product of the three
sizes is checked once, by `sampleCount`, before any sample exists.
-/

namespace Isthmus

/-- An immutable pixel matrix. -/
structure Matrix where
  rows : Nat
  cols : Nat
  channels : Nat
  data : Buffer
  deriving DecidableEq, Repr

namespace Matrix

/-- The most samples a matrix may have: `2 ^ 28`. -/
def maxSamples : Nat := 268435456

/-- One channel. -/
def gray : Int := 1
/-- Three channels, red first. -/
def rgb : Int := 3
/-- Four channels, red first, alpha last. -/
def rgba : Int := 4

/-- `n * m` as long as it fits into 64 bits. -/
def product? (n m : Nat) : Option Nat :=
  if n * m < UInt64.size then some (n * m) else none

/-- The three sizes as messages show them. -/
def shapeText (rows cols channels : Nat) : String :=
  toString rows ++ "x" ++ toString cols ++ "x" ++ toString channels

/-- The number of samples of a shape.  Rows and columns are multiplied first, so they must fit
together even where there is no channel. -/
def sampleCount (rows cols channels : Nat) : Except NativeError Nat :=
  match ((product? rows cols).bind (product? · channels)).filter (· ≤ maxSamples) with
  | some n => .ok n
  | none => .error (.argument
      (shapeText rows cols channels ++ " matrix exceeds " ++ toString maxSamples ++ " samples"))

/-- The matrix without pixels. -/
def empty (storage : Nat) : Matrix :=
  ⟨0, 0, 1, ⟨storage, #[]⟩⟩

/-- A shape as callers give it, checked. -/
def checkShape (rows cols format : Int) : Except NativeError (Nat × Nat × Nat) :=
  if rows < 0 ∨ cols < 0 then
    .error (.argument ("negative matrix size " ++ toString rows ++ "x" ++ toString cols))
  else if format = gray ∨ format = rgb ∨ format = rgba then
    .ok (rows.toNat, cols.toNat, format.toNat)
  else .error (.argument ("unknown format " ++ toString format))

/-- A matrix with every sample set to `fill`. -/
def filled (storage : Nat) (rows cols format : Int) (fill : UInt8) : Except NativeError Matrix := do
  let (rows, cols, channels) ← checkShape rows cols format
  let count ← sampleCount rows cols channels
  return ⟨rows, cols, channels, ⟨storage, Array.replicate count fill⟩⟩

/-- A matrix over given samples, of which there must be exactly as many as the shape has. -/
def ofSamples (storage rows cols channels : Nat) (samples : Array UInt8) :
    Except NativeError Matrix := do
  let count ← sampleCount rows cols channels
  if samples.size = count then return ⟨rows, cols, channels, ⟨storage, samples⟩⟩
  else throw (.argument (shapeText rows cols channels ++ " matrix needs " ++ toString count ++
    " bytes, got " ++ toString samples.size))

/-- Where the sample of a coordinate lies. -/
def offset (m : Matrix) (row col channel : Nat) : Nat :=
  (row * m.cols + col) * m.channels + channel

/-- The sample at a coordinate inside the matrix. -/
def at? (m : Matrix) (row col channel : Nat) : Option UInt8 :=
  if row < m.rows ∧ col < m.cols ∧ channel < m.channels then
    m.data.bytes[m.offset row col channel]?
  else none

/-! ## Reflection -/

def descriptor : TypeDescriptor :=
  ({ name := "Matrix" } : TypeDescriptor)
    |>.method "rows" [] .int
    |>.method "cols" [] .int
    |>.method "type" [] .int
    |>.method "at" [.int, .int, .int] .int
    |>.readonly "data" .buffer
    |>.constant "FORMAT_GRAY" (.int (.ofInt gray))
    |>.constant "FORMAT_RGB" (.int (.ofInt rgb))
    |>.constant "FORMAT_RGBA" (.int (.ofInt rgba))

/-- A size as a 32-bit integer; only its low bits are kept. -/
def narrow (n : Nat) : NativeValue :=
  .int (.ofNat n)

/-- The sample at a coordinate given in 32-bit integers. -/
def sampleAt (m : Matrix) (row col channel : Int32) : Except NativeError NativeValue :=
  let sample :=
    if 0 ≤ row.toInt ∧ 0 ≤ col.toInt ∧ 0 ≤ channel.toInt then
      m.at? row.toInt.toNat col.toInt.toNat channel.toInt.toNat
    else none
  match sample with
  | some s => .ok (.int (.ofNat s.toNat))
  | none => .error (.argument ("(" ++ toString row.toInt ++ ", " ++ toString col.toInt ++ ", " ++
      toString channel.toInt ++ ") out of bounds"))

/-- Runs a method by its index. -/
def invoke (nameOf : TypeId → String) (m : Matrix) (index : Nat) (args : List NativeValue) :
    Except Fault NativeValue :=
  match index with
  | 0 => .ok (narrow m.rows)
  | 1 => .ok (narrow m.cols)
  | 2 => .ok (narrow m.channels)
  | 3 => do
    let row ← argumentAs (·.toInt nameOf) args 0
    let col ← argumentAs (·.toInt nameOf) args 1
    let channel ← argumentAs (·.toInt nameOf) args 2
    match m.sampleAt row col channel with
    | .ok v => .ok v
    | .error e => .error (.error e)
  | _ => .error (.error (.unknownMember index))

/-- Reads a property by its index. -/
def read (m : Matrix) : Nat → Option NativeValue
  | 0 => some (.buffer m.data)
  | _ => none

end Matrix

end Isthmus
