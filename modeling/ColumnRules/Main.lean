import ColumnRules.Command.Run

/-!
# The command line program

Reads the files that the arguments name, runs the command and prints its answer. Errors go to the
error stream and make the program fail.
-/

set_option autoImplicit false

open ColumnRules

def readPath (path : String) : IO (String × Except FileFault String) := do
  try
    let text ← IO.FS.readFile path
    return (path, .ok text)
  catch
    | .noFileOrDirectory .. => return (path, .error .missing)
    | .inappropriateType _ code _ =>
      return (path, .error (if code == 21 then .directory else .notDirectory))
    | .invalidArgument _ code _ =>
      return (path, .error (if code == 22 then .zeroCharacter else .nameTooLong))
    | e => return (path, .error (.other (toString e)))

def main (arguments : List String) : IO UInt32 := do
  match Invocation.ofArguments arguments with
  | .error e =>
    IO.eprintln ("Error: " ++ e.message)
    return 1
  | .ok invocation =>
    let contents ← invocation.paths.mapM readPath
    let files : Files := fun path =>
      match contents.find? fun entry => entry.1 == path with
      | some entry => entry.2
      | none => .error .missing
    match invocation.run files with
    | .error e =>
      IO.eprintln ("Error: " ++ e.message)
      return 1
    | .ok output =>
      if output.endsWith "\n" then IO.print output else IO.println output
      return 0
