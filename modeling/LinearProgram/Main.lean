import LinearProgram.CommandLine.Run

/-! # The command line program

Reads the file that the arguments name, or the standard input, and prints the outcome.
-/

open LinearProgram CommandLine

def readSource (file : String) : IO (Except String String) := do
  try
    if file = "-" then .ok <$> (← IO.getStdin).readToEnd
    else .ok <$> IO.FS.readFile file
  catch
    | .noFileOrDirectory .. => return .error missingFile
    | e => return .error (toString e)

def main (args : List String) : IO UInt32 := do
  match Command.ofArguments? args with
  | none =>
    (← IO.getStderr).putStrLn "usage: [--log-json] graphical|simplex|check FILE [options]"
    return 2
  | some command =>
    let outcome := command.run (← readSource command.file)
    (← IO.getStdout).putStr outcome.output
    (← IO.getStderr).putStr outcome.errors
    return outcome.exit.toUInt32
