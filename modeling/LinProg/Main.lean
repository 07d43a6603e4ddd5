import LinProg.Command.Run

/-!
The program: it reads the file that its command line names, and prints what the command gives.
-/

namespace LinProg

open Command

/-- A refusal of the operating system. Its code may come negated, and its words begin a sentence. -/
def refusal (code : UInt32) (words : String) : ReadFailure :=
  let number := (min code (0 - code)).toNat
  (ReadFailure.withCode? number).getD (.refused words.capitalize number)

/-- What is found where a file is read. -/
def readFile (path : String) : IO FileContent := do
  try
    return .ofBytes (← IO.FS.readBinFile path)
  catch
    | .noFileOrDirectory _ code words => return .error (refusal code words)
    | .inappropriateType _ code words => return .error (refusal code words)
    | .invalidArgument _ code words => return .error (refusal code words)
    | .permissionDenied _ code words => return .error (refusal code words)
    | error => return .error (refusal 5 error.toString)

end LinProg

/-- Runs a command line and exits with its code. What is wrong with a text that cannot be read is
reported by its kind. -/
def main (words : List String) : IO UInt32 := do
  let result ← LinProg.Command.run (fun _ problem => reprStr problem) LinProg.readFile words
  IO.print result.stdout
  IO.eprint result.stderr
  return result.code.toUInt32
