import SearchSql.CommandLine.Run

/-!
# The program

Reads what the command needs, runs it and prints the result. Diagnostics and failures go to the
standard error; a failure has an exit status of its own.
-/

set_option autoImplicit false

namespace SearchSql

open CommandLine

/-- How the program is used. -/
def usageText : String :=
  "usage: [-c FILE] [--max-depth N] [--no-recover] [-v] parse|format|tokens|check [SQL] [-f FILE]"

/-- The contents of a file, if it can be read. -/
def readContents? (name : String) : IO (Option String) := do
  try
    return some (← IO.FS.readFile name)
  catch _ => return none

/-- The contents of the named files, of which those that cannot be read have none. -/
def readFiles (names : List String) : IO (String → Option String) := do
  let contents ← names.mapM fun name => return (name, ← readContents? name)
  return fun name => (contents.lookup name).join

/-- The files that an invocation names. -/
def CommandLine.Invocation.fileNames (i : Invocation) : List String :=
  match i.source with
  | .file name => i.config.toList ++ [name]
  | _ => i.config.toList

/-- Reads what an invocation can ask for. -/
def readInputs (i : Invocation) : IO Inputs := do
  let files ← readFiles i.fileNames
  match i.source with
  | .input => return ⟨files, ← (← IO.getStdin).readToEnd⟩
  | _ => return ⟨files, ""⟩

/-- Prints diagnostics, one to a line. -/
def printDiagnostics (diagnostics : List Diagnostic) : IO Unit :=
  diagnostics.forM fun d => IO.eprintln d.text

/-- Prints what a command gives, and gives its exit status. -/
def printResult : Except CommandLine.Failure Output → IO UInt32
  | .ok output => do
      (← IO.getStdout).putStr output.toText
      printDiagnostics output.diagnostics
      return 0
  | .error failure => do
      printDiagnostics failure.diagnostics
      match failure.message? with
      | some message => IO.eprintln ("Error: " ++ message)
      | none => IO.eprintln usageText
      return failure.status.toUInt32

end SearchSql

open SearchSql in
/-- Runs the command that the arguments ask for. -/
def main (arguments : List String) : IO UInt32 := do
  let environment : CommandLine.Environment :=
    ⟨← IO.getEnv "SIFT_SQL_MAX_DEPTH", ← IO.getEnv "SIFT_SQL_NO_RECOVER"⟩
  match CommandLine.Invocation.ofArguments? environment arguments with
  | none => printResult (.error .usage)
  | some i => printResult (i.run (← readInputs i))
