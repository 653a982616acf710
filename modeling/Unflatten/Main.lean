import Unflatten.CommandLine

/-! # The command

Reads a program, deobfuscates it, writes the result, and reports the diagnostics to the
standard error output. -/

set_option autoImplicit false

namespace Unflatten.Command

/-- What the command is for and what it takes. -/
def usage : String :=
  "Undo control-flow flattening in obfuscated JavaScript\n\n"
    ++ "Usage: unflatten [OPTIONS] <INPUT>\n\n"
    ++ "Arguments:\n"
    ++ "  <INPUT>  Input file, or `-` to read from stdin\n\n"
    ++ "Options:\n"
    ++ "  -o, --output <OUTPUT>            Write the result here instead of stdout\n"
    ++ "      --keep-comments              Keep source comments in the output\n"
    ++ "      --no-minimal-escape          Escape every non-ASCII character in string literals\n"
    ++ "      --indent <INDENT>            Spaces per indentation level [default: 4]\n"
    ++ "      --no-rename                  Keep the names of bindings\n"
    ++ "      --no-control-flow            Skip dispatcher detection and reconstruction\n"
    ++ "      --diagnostics <DIAGNOSTICS>  How diagnostics are written: text or json\n"
    ++ "      --no-color                   Disable colored diagnostics\n"
    ++ "  -h, --help                       Print help\n"
    ++ "  -V, --version                    Print version\n"

/-- Reads the input of a command. -/
def readInput (command : CommandLine) : IO (Except CommandLine.Failure String) := do
  if command.readsStandardInput then
    try return .ok (← (← IO.getStdin).readToEnd)
    catch _ => return .error (.unreadable "stdin")
  else
    try return .ok (← IO.FS.readFile command.input)
    catch _ => return .error (.unreadable command.input)

/-- Writes the result of a command. -/
def writeOutput (output : Option String) (code : String) : IO (Option CommandLine.Failure) := do
  match output with
  | none => (← IO.getStdout).putStr code
  | some path =>
    try IO.FS.writeFile path code
    catch _ => return some (.unwritable path)
  return none

/-- Prints the message of a failure and answers the exit code. -/
def fail (failure : CommandLine.Failure) : IO UInt32 := do
  IO.eprintln ("Error: " ++ failure.message)
  return 1

/-- Runs a command and answers the exit code. -/
def execute (command : CommandLine) : IO UInt32 := do
  match ← readInput command with
  | .error failure => fail failure
  | .ok text =>
    match command.run text.toList with
    | .error failure => fail failure
    | .ok result =>
      match ← writeOutput command.output result.code with
      | some failure => fail failure
      | none =>
        let isTerminal ← (← IO.getStderr).isTty
        IO.eprint (command.report text.toList isTerminal result.diagnostics)
        return 0

end Unflatten.Command

/-- Runs the command with its arguments. -/
def main (arguments : List String) : IO UInt32 := do
  match Unflatten.CommandLine.parse arguments with
  | .ok command => Unflatten.Command.execute command
  | .error .displayHelp =>
    IO.print Unflatten.Command.usage
    return 0
  | .error .displayVersion =>
    IO.println "unflatten 0.1.0"
    return 0
  | .error error =>
    IO.eprintln ("error: " ++ error.name)
    IO.eprint Unflatten.Command.usage
    return 2
