import Isthmus.Library.Matrix
import Isthmus.Text.Numeral
import Isthmus.Text.Quoted
import Isthmus.Text.Utf8

/-!
# Library/Netpbm — reading binary netpbm images

A header of four fields — magic, width, height, greatest sample — is followed by one blank byte and
the samples.  Blanks and comments stand between the fields; a comment begins where a field could and
ends with its line.
-/

namespace Isthmus.Netpbm

/-- Why bytes are not an image. -/
inductive FormatError where
  | truncatedHeader
  | unsupportedMagic (field : String)
  | badField (field : String)
  | unsupportedMaximum (value : Nat)
  | badShape (cause : NativeError)
  | missingSamples (count : Nat)
  deriving DecidableEq, Repr

/-- The text shown for bytes that are not an image. -/
def FormatError.message : FormatError → String
  | truncatedHeader => "truncated header"
  | unsupportedMagic field => "unsupported magic " ++ Text.quoted field
  | badField field => "bad header field " ++ Text.quoted field
  | unsupportedMaximum value => "unsupported maxval " ++ toString value
  | badShape cause => cause.message
  | missingSamples count => "expected " ++ toString count ++ " sample bytes"

/-- Space, tab, line feed, form feed and carriage return. -/
def isBlank (b : UInt8) : Bool :=
  b = 0x20 || b = 0x09 || b = 0x0A || b = 0x0C || b = 0x0D

/-- What follows the blanks and comments; `inComment` says that a comment is open. -/
def skipBlanks (inComment : Bool) : List UInt8 → List UInt8
  | [] => []
  | b :: rest =>
    if inComment then skipBlanks (b ≠ 0x0A) rest
    else if b = 0x23 then skipBlanks true rest
    else if isBlank b then skipBlanks false rest
    else b :: rest

/-- The next field and what follows it. -/
def field (bytes : List UInt8) : Except FormatError (List UInt8 × List UInt8) :=
  match skipBlanks false bytes with
  | [] => .error .truncatedHeader
  | rest => .ok (rest.takeWhile (!isBlank ·), rest.dropWhile (!isBlank ·))

/-- The next field as a number. -/
def numberField (bytes : List UInt8) : Except FormatError (Nat × List UInt8) := do
  let (digits, rest) ← field bytes
  match Text.numeral? (Text.decode digits).toList with
  | some n => return (n, rest)
  | none => throw (.badField (Text.decode digits))

/-- The channels that a magic stands for. -/
def channelsOf (magic : String) : Except FormatError Nat :=
  if magic = "P5" then .ok 1
  else if magic = "P6" then .ok 3
  else .error (.unsupportedMagic magic)

/-- The samples: one byte is skipped, then `count` are taken. -/
def samples (count : Nat) : List UInt8 → Except FormatError (List UInt8)
  | [] => .error (.missingSamples count)
  | _ :: rest =>
    if count ≤ rest.length then .ok (rest.take count) else .error (.missingSamples count)

/-- The cause of a refused shape. -/
def shaped {α : Type} : Except NativeError α → Except FormatError α
  | .ok a => .ok a
  | .error e => .error (.badShape e)

/-- The image in a byte string. -/
def decode (storage : Nat) (bytes : List UInt8) : Except FormatError Matrix := do
  let (magic, bytes) ← field bytes
  let channels ← channelsOf (Text.decode magic)
  let (width, bytes) ← numberField bytes
  let (height, bytes) ← numberField bytes
  let (maximum, bytes) ← numberField bytes
  if maximum = 0 ∨ 255 < maximum then throw (.unsupportedMaximum maximum)
  let count ← shaped (Matrix.sampleCount height width channels)
  let data ← samples count bytes
  shaped (Matrix.ofSamples storage height width channels data.toArray)

end Isthmus.Netpbm
