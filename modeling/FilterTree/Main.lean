import FilterTree.Command.Basic

/-!
# The program

Reads the files that the command line names, writes what the command answers,
and ends with its code.
-/

open FilterTree.Command

/-- The number of an error of the system, which some errors give negated. -/
def FilterTree.Command.errorNumber (code : UInt32) : UInt32 := min code (0 - code)

/-- Why a file could not be read, from what the system says. -/
def FilterTree.Command.FileError.ofSystem (e : IO.Error) : FileError :=
  match e with
  | .noFileOrDirectory .. => .notFound
  | .inappropriateType _ code _ => if errorNumber code = 20 then .notADirectory else .isDirectory
  | .invalidArgument _ code _ =>
    if errorNumber code = 36 then .nameTooLong else .other (toString e)
  | e => .other (toString e)

/-- What the file at a path holds. -/
def FilterTree.Command.readFile (path : String) : IO (Except FileError String) := do
  try
    return .ok (← IO.FS.readFile path)
  catch e =>
    return .error (.ofSystem e)

def main (arguments : List String) : IO UInt32 := do
  let files ← (paths arguments).mapM fun path => do return (path, ← readFile path)
  let outcome := answer (fun path => (files.lookup path).getD (.error .notFound)) arguments
  (← IO.getStdout).putStr outcome.output
  (← IO.getStderr).putStr outcome.errors
  return UInt32.ofNat outcome.code
