import Federation.CommandLine.Run

/-!
# The command line

Reads the file that a command names, runs the command, and passes on its output, its diagnostics
and its exit code.
-/

namespace Federation

/-- How commands are written. -/
def usage : String :=
  "Usage: federation validate <file>\n" ++
  "       federation providers <file>\n" ++
  "       federation path <file> <source> <target> [--json]\n"

/-- The error of a file that the system does not give out. -/
def FileError.ofSystem (e : IO.Error) : FileError :=
  match e with
  | .inappropriateType _ code _ => if code = 20 then throughFile else isFolder
  | .illegalOperation .. => isFolder
  | .invalidArgument _ code _ => if code = 36 then nameTooLong else notFound
  | _ => notFound

/-- Reads the file at a path. -/
def readFile (path : String) : IO (Except FileError String) := do
  try
    match FolderEntry.ofBytes (← IO.FS.readBinFile path) with
    | .text content => return .ok content
    | _ => return .error .notText
  catch e => return .error (.ofSystem e)

/-- What is written as a diagnostic where no wording is fixed. -/
def fallback : RunFailure → String
  | .usage => usage
  | .network _ => "Error: the network file cannot be read\n"

/-- Passes on the outcome of a run. -/
def finish (o : RunOutcome) : IO UInt32 := do
  IO.print o.output
  match o.failure with
  | some failure => IO.eprint (failure.diagnostic?.getD (fallback failure))
  | none => pure ()
  return UInt32.ofNat o.exitCode

end Federation

open Federation in
/-- Runs the command line. -/
def main (args : List String) : IO UInt32 := do
  match Command.ofArgs? args with
  | some command =>
    let content ← readFile command.file
    finish (command.run fun _ => content)
  | none => finish (runArgs (fun _ => .error .notFound) args)
