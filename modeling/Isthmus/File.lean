/-!
# File — reading files

A set of files is what is known about the file system: the contents under some paths.  Any other path
leads nowhere, except that a path made of dots and slashes alone always leads to a directory.
-/

namespace Isthmus

/-- Why a file could not be read. -/
inductive ReadError where
  | notFound
  | isDirectory
  | nameTooLong
  | nulInName
  | notText
  deriving DecidableEq, Repr

/-- The text shown for a file that could not be read. -/
def ReadError.message : ReadError → String
  | notFound => "No such file or directory (os error 2)"
  | isDirectory => "Is a directory (os error 21)"
  | nameTooLong => "File name too long (os error 36)"
  | nulInName => "file name contained an unexpected NUL byte"
  | notText => "stream did not contain valid UTF-8"

/-- Known files: paths and contents, the newest first. -/
structure Files where
  entries : List (String × Array UInt8) := []

namespace Files

/-- The parts of a path between its slashes. -/
def parts (path : String) : List String :=
  path.splitOn "/"

/-- The first part of a path that names something. -/
def firstName? (path : String) : Option String :=
  (parts path).find? fun part => part ≠ "" && part ≠ "." && part ≠ ".."

/-- The path leads to a directory wherever it is used. -/
def isDirectory (path : String) : Bool :=
  path ≠ "" && (firstName? path).isNone

/-- The path, or the first name that is looked up on it, is longer than may be. -/
def isTooLong (path : String) : Bool :=
  4096 ≤ path.utf8ByteSize || (firstName? path).any (255 < ·.utf8ByteSize)

/-- The contents of the file at a path. -/
def read (files : Files) (path : String) : Except ReadError (Array UInt8) :=
  match files.entries.find? (·.1 = path) with
  | some (_, bytes) => .ok bytes
  | none =>
    if path.contains '\x00' then .error .nulInName
    else if isTooLong path then .error .nameTooLong
    else if isDirectory path then .error .isDirectory
    else .error .notFound

/-- The text in the file at a path. -/
def readText (files : Files) (path : String) : Except ReadError String := do
  match String.fromUTF8? ⟨← files.read path⟩ with
  | some text => .ok text
  | none => .error .notText

/-- Adds a file. -/
def add (files : Files) (path : String) (bytes : Array UInt8) : Files :=
  ⟨(path, bytes) :: files.entries⟩

end Files

end Isthmus
