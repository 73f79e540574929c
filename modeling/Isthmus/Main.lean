import Isthmus.Command.Run

/-!
# Main — the program on the command line
-/

namespace Isthmus

/-- The files among the given paths that can be read. -/
def readFiles (paths : List String) : IO Files :=
  paths.foldlM (fun files (path : String) => do
    try return files.add path (← IO.FS.readBinFile path).data
    catch _ => return files) {}

/-- The number of processors. -/
def countProcessors : IO Nat := do
  try
    let lines := (← IO.FS.readFile "/proc/cpuinfo").splitOn "\n"
    return max 1 (lines.filter (·.startsWith "processor")).length
  catch _ => return 1

/-- A time in nanoseconds, as it is told. -/
def timeText (nanos : Nat) : String :=
  let micros := toString (nanos / 1000 % 1000)
  toString (nanos / 1000000) ++ "." ++ "".pushn '0' (3 - micros.length) ++ micros ++ "ms"

/-- Answers a command line. -/
def answer (args : List String) : IO UInt32 := do
  let paths := match Command.parse args with
    | .ok r => r.config.toList
    | .error _ => []
  let files ← readFiles ("missing.pgm" :: paths)
  let processors := toString (← countProcessors)
  let start ← IO.monoNanosNow
  let elapsed ←
    if (Command.run { files, processors, elapsed := "" } args).lines.isEmpty then pure ""
    else pure (timeText ((← IO.monoNanosNow) - start))
  let outcome := Command.run { files, processors, elapsed } args
  outcome.lines.forM IO.println
  if let some text := outcome.error then IO.eprintln text
  return UInt32.ofNat outcome.code

end Isthmus

/-- Runs the program. -/
def main (args : List String) : IO UInt32 :=
  Isthmus.answer args
