import Isthmus.File
import Isthmus.Library.Netpbm
import Isthmus.Library.Resize

/-!
# Library/Imaging — making, resizing and loading matrices

Factories answer at once; `resize` and `load` check what they can, and leave the rest to a background
job that settles a deferred.
-/

namespace Isthmus.Imaging

/-- The descriptor; `matrix` is the id of the matrix type. -/
def descriptor (matrix : TypeId) : TypeDescriptor :=
  ({ name := "Imaging" } : TypeDescriptor)
    |>.method "zeros" [.int, .int, .int] matrix
    |>.method "ones" [.int, .int, .int] matrix
    |>.method "resize" [matrix, .int, .int, .int] .deferred
    |>.method "load" [.string] .deferred
    |>.constant "INTER_NEAREST" (.int 0)
    |>.constant "INTER_LINEAR" (.int 1)

/-- Background work on images. -/
inductive Work where
  | resize (source : Matrix) (width height : Nat) (interpolation : Matrix.Interpolation)
  | load (path : String)

/-- What calling a method asks for. -/
inductive Request where
  | create (m : Matrix)
  | schedule (work : Work)

/-- Why an image could not be loaded. -/
inductive ImageError where
  | read (cause : ReadError)
  | format (cause : Netpbm.FormatError)
  deriving DecidableEq, Repr

namespace ImageError

def kind : ImageError → String
  | read _ => "Io"
  | format _ => "Format"

def message : ImageError → String
  | read cause => "failed to read image: " ++ cause.message
  | format cause => "invalid image: " ++ cause.message

end ImageError

/-- The image in a file, given what reading the file gave. -/
def load (storage : Nat) (contents : Except ReadError (Array UInt8)) : Except ImageError Matrix :=
  match contents with
  | .error e => .error (.read e)
  | .ok bytes =>
    match Netpbm.decode storage bytes.toList with
    | .ok m => .ok m
    | .error e => .error (.format e)

/-- A refusal, unless the condition holds. -/
def require (condition : Bool) (text : String) : Except Fault Unit :=
  if condition then .ok () else .error (.error (.argument text))

/-- Turns a failure of a matrix operation into one of the member. -/
def failing {α : Type} : Except NativeError α → Except Fault α
  | .ok a => .ok a
  | .error e => .error (.error e)

/-- The request of a factory. -/
def create (nameOf : TypeId → String) (storage : Nat) (fill : UInt8) (args : List NativeValue) :
    Except Fault Request := do
  let rows ← argumentAs (·.toInt nameOf) args 0
  let cols ← argumentAs (·.toInt nameOf) args 1
  let format ← argumentAs (·.toInt nameOf) args 2
  return .create (← failing (Matrix.filled storage rows.toInt cols.toInt format.toInt fill))

/-- The request of a method by its index.  `matrixOf` finds the matrix of an instance, and `storage`
is the identity for the samples of a new one. -/
def request (nameOf : TypeId → String) (matrixOf : InstanceId → Option Matrix) (storage : Nat)
    (index : Nat) (args : List NativeValue) : Except Fault Request :=
  match index with
  | 0 => create nameOf storage 0 args
  | 1 => create nameOf storage 1 args
  | 2 => do
    let v ← argument args 0
    let some source := v.unwrap.asObject?.bind matrixOf
      | throw (.error (.argument "expected a Matrix"))
    let width ← argumentAs (·.toInt nameOf) args 1
    let height ← argumentAs (·.toInt nameOf) args 2
    let code ← argumentAs (·.toInt nameOf) args 3
    require (0 < width.toInt && 0 < height.toInt)
      ("invalid target size " ++ toString width.toInt ++ "x" ++ toString height.toInt)
    require (code.toInt = 0 || code.toInt = 1) ("unknown interpolation " ++ toString code.toInt)
    let _ ← failing (Matrix.sampleCount height.toInt.toNat width.toInt.toNat source.channels)
    return .schedule (.resize source width.toInt.toNat height.toInt.toNat (.ofCode code.toInt))
  | 3 => do
    let path ← argumentAs (·.toText nameOf) args 0
    return .schedule (.load path)
  | _ => .error (.error (.unknownMember index))

end Isthmus.Imaging
