import PathSelection.Command.Run
import PathSelection.Decimal.Text
import PathSelection.Lp.Exact
import PathSelection.Random.ChaCha

namespace PathSelection

/-- Whether an error number stands for the given one; it comes with either sign. -/
def isErrorNumber (number code : UInt32) : Bool := code == number || code == 0 - number

/-- The fault behind a failed file operation. -/
def FileFault.ofError (e : IO.Error) : FileFault :=
  match e with
  | .noFileOrDirectory .. | .noSuchThing .. => .notFound
  | .inappropriateType _ code _ => if isErrorNumber 21 code then .isDirectory else .notDirectory
  | .resourceExhausted .. => .noSpace
  | .invalidArgument _ code _ => if isErrorNumber 36 code then .nameTooLong else .nulInName
  | e => .other (toString e)

instance : FileStore IO where
  readText path := do
    try
      let bytes ← IO.FS.readBinFile path
      match String.fromUTF8? bytes with
      | some text => pure (.ok text)
      | none => pure (.error .badText)
    catch e => pure (.error (FileFault.ofError e))
  writeText path text := do
    try
      IO.FS.writeFile path text
      pure (.ok ())
    catch e => pure (.error (FileFault.ofError e))

/-- A seed for runs that do not ask for one. -/
def drawSeed : IO UInt64 := do
  let bytes ← IO.getRandomBytes 8
  pure (bytes.toList.foldl (fun w b => (w <<< 8) ||| b.toUInt64) 0)

/-- The words for a request of help and for a misuse. -/
def usage : String :=
  "Usage: pathbandit [-n TIMES] [-M PATHS] [-T ROUNDS] [-f FILE] [-o FILE] [-s SEED] [-F]\n" ++
  "  [-d RATE] [-D MICROSECONDS] [--threshold X] [--policy NAME]... [--path-type KIND]\n" ++
  "  [--stddev X] [--mode MODE] [--gamma RATE] [--reward-output FILE] [--klucb-leader]\n" ++
  "  [--replay FILE]\n"

end PathSelection

/-- Runs the command with the given arguments. -/
def main (arguments : List String) : IO UInt32 := do
  let entropy ← PathSelection.drawSeed
  let exit ← PathSelection.Command.run PathSelection.Lp.Exact.engine
    PathSelection.ChaCha.ofSeed entropy arguments
  match exit.complaint with
  | none => IO.eprint PathSelection.usage
  | some text =>
    if exit.code = 0 ∧ arguments.any (fun a => a = "--help" ∨ a = "-h") then
      IO.print PathSelection.usage
    IO.eprint text
  pure exit.code.toUInt32
