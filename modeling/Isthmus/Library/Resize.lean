import Isthmus.Library.Matrix
import Isthmus.Number.Exact

/-!
# Library/Resize — resampling a matrix

Each sample of the result is computed from its place alone: the place is scaled into the source in
doubles, turned into whole coordinates that are clamped to the source, and read there.
-/

namespace Isthmus.Matrix

/-- How a sample between the pixels of the source is found. -/
inductive Interpolation where
  | nearest
  | linear
  deriving DecidableEq, Repr

/-- The interpolation of a code. -/
def Interpolation.ofCode (code : Int) : Interpolation :=
  if code = 0 then .nearest else .linear

/-- A place of the result. -/
structure Place where
  row : Nat
  col : Nat
  channel : Nat

/-- The place of the `k`-th sample of a result with the given width and channels. -/
def placeOf (width channels k : Nat) : Place :=
  ⟨k / channels / width, k / channels % width, k % channels⟩

/-- A coordinate clamped to a length. -/
def clampTo (length : Nat) (x : Float) : Nat :=
  min (Number.toNat x) (length - 1)

/-- The sample at a coordinate as a double; nothing reads as zero. -/
def level (m : Matrix) (row col channel : Nat) : Float :=
  Number.ofInt (((m.at? row col channel).getD 0).toNat)

/-- The sample under a place. -/
def nearestAt (m : Matrix) (scaleX scaleY : Float) (p : Place) : Float :=
  m.level (clampTo m.rows (Float.ofNat p.row * scaleY)) (clampTo m.cols (Float.ofNat p.col * scaleX))
    p.channel

/-- The centre of a pixel in the source, never before its first pixel. -/
def centre (i : Nat) (scale : Float) : Float :=
  let x := (Float.ofNat i + 0.5) * scale - 0.5
  if 0.0 ≤ x then x else 0.0

/-- The weighted mean of the four samples around a place. -/
def linearAt (m : Matrix) (scaleX scaleY : Float) (p : Place) : Float :=
  let y := centre p.row scaleY
  let x := centre p.col scaleX
  let row := clampTo m.rows y
  let col := clampTo m.cols x
  let row' := min (row + 1) (m.rows - 1)
  let col' := min (col + 1) (m.cols - 1)
  let fy := y - Float.ofNat row
  let fx := x - Float.ofNat col
  let top := m.level row col p.channel * (1.0 - fx) + m.level row col' p.channel * fx
  let bottom := m.level row' col p.channel * (1.0 - fx) + m.level row' col' p.channel * fx
  top * (1.0 - fy) + bottom * fy

/-- The sample of the result at a place. -/
def sampleFor (m : Matrix) (width height : Nat) (interpolation : Interpolation) (p : Place) :
    UInt8 :=
  let scaleX := Float.ofNat m.cols / Float.ofNat width
  let scaleY := Float.ofNat m.rows / Float.ofNat height
  match interpolation with
  | .nearest => Number.toSample (m.nearestAt scaleX scaleY p)
  | .linear => Number.toSample (m.linearAt scaleX scaleY p)

/-- The source resampled to `width` columns and `height` rows, or the text of a refusal. -/
def resize (m : Matrix) (storage width height : Nat) (interpolation : Interpolation) :
    Except String Matrix :=
  if m.rows = 0 ∨ m.cols = 0 then .error "cannot resize an empty matrix"
  else
    match sampleCount height width m.channels with
    | .error e => .error e.message
    | .ok count =>
      let samples := Array.ofFn fun k : Fin count =>
        m.sampleFor width height interpolation (placeOf width m.channels k)
      match ofSamples storage height width m.channels samples with
      | .ok result => .ok result
      | .error e => .error e.message

end Isthmus.Matrix
