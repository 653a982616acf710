import Unflatten.Deobfuscation
import Unflatten.Report

/-! # The command line

`CommandLine.parse` reads the arguments.  An option with a value takes it after `=` or
from the next argument, `-o` also right behind the letter; everything behind `--` is the
input.  A value that comes as an argument of its own is looked at when the next option
or the input comes, or at the end, so an unknown argument behind a wrong value is
reported first.

`CommandLine.run` says what the command does with the text of its input. -/

set_option autoImplicit false

namespace Unflatten

/-- How diagnostics are written. -/
inductive DiagnosticsFormat where
  | text
  | json
  deriving DecidableEq, Repr, Inhabited

/-- What the command is asked to do. -/
structure CommandLine where
  /-- The input file, or `-` for the standard input. -/
  input : String
  /-- The file for the result, instead of the standard output. -/
  output : Option String
  keepComments : Bool
  noMinimalEscape : Bool
  indent : Nat
  noRename : Bool
  noControlFlow : Bool
  diagnostics : DiagnosticsFormat
  noColor : Bool
  deriving DecidableEq, Repr

/-- Why arguments are not read to the end. -/
inductive ArgumentError where
  | missingRequired
  | unknown
  | invalidValue
  | valueValidation
  | conflict
  | tooManyValues
  | displayHelp
  | displayVersion
  deriving DecidableEq, Repr

/-- The name of an error of arguments. -/
def ArgumentError.name : ArgumentError → String
  | .missingRequired => "MissingRequiredArgument"
  | .unknown => "UnknownArgument"
  | .invalidValue => "InvalidValue"
  | .valueValidation => "ValueValidation"
  | .conflict => "ArgumentConflict"
  | .tooManyValues => "TooManyValues"
  | .displayHelp => "DisplayHelp"
  | .displayVersion => "DisplayVersion"

namespace CommandLine

/-- What can be given on the command line. -/
inductive Parameter where
  | input
  | output
  | keepComments
  | noMinimalEscape
  | indent
  | noRename
  | noControlFlow
  | diagnostics
  | noColor
  | help
  | version
  deriving DecidableEq, Repr

namespace Parameter

/-- The options by their long names. -/
def ofLongName? : String → Option Parameter
  | "output" => some .output
  | "keep-comments" => some .keepComments
  | "no-minimal-escape" => some .noMinimalEscape
  | "indent" => some .indent
  | "no-rename" => some .noRename
  | "no-control-flow" => some .noControlFlow
  | "diagnostics" => some .diagnostics
  | "no-color" => some .noColor
  | "help" => some .help
  | "version" => some .version
  | _ => none

/-- The options by their letters. -/
def ofLetter? : Char → Option Parameter
  | 'o' => some .output
  | 'h' => some .help
  | 'V' => some .version
  | _ => none

/-- Whether a value belongs to it. -/
def takesValue : Parameter → Bool
  | .input | .output | .indent | .diagnostics => true
  | _ => false

end Parameter

/-- The largest width of an indent. -/
def maxIndent : Nat := Number.wordCount - 1

/-- A whole number with an optional sign, in the range of an indent. -/
def readIndent (text : String) : Option Nat :=
  let (isNegative, digits) := match text.toList with
    | '-' :: rest => (true, rest)
    | '+' :: rest => (false, rest)
    | rest => (false, rest)
  if digits.isEmpty || !digits.all Char.isDigit then none
  else
    let value := Number.ofDigits digits
    if value ≤ maxIndent && !(isNegative && value ≠ 0) then some value else none

/-- Arguments that have been read in part. -/
structure Reading where
  command : CommandLine
  /-- What has been given and looked at. -/
  given : List Parameter
  /-- What has been given last, with its value if that has come. -/
  pending : Option (Parameter × Option String)
  /-- Whether the input has come. -/
  hasInput : Bool

namespace Reading

/-- Nothing has been read. -/
def start : Reading where
  command := ⟨"", none, false, false, 4, false, false, .text, false⟩
  given := []
  pending := none
  hasInput := false

/-- Takes a value in. -/
def assign (command : CommandLine) (value : String) :
    Parameter → Except ArgumentError CommandLine
  | .input => if value.isEmpty then .error .invalidValue else .ok { command with input := value }
  | .output =>
    if value.isEmpty then .error .invalidValue else .ok { command with output := some value }
  | .indent =>
    match readIndent value with
    | some width => .ok { command with indent := width }
    | none => .error .valueValidation
  | .diagnostics =>
    match value with
    | "text" => .ok { command with diagnostics := .text }
    | "json" => .ok { command with diagnostics := .json }
    | _ => .error .invalidValue
  | .keepComments => .ok { command with keepComments := true }
  | .noMinimalEscape => .ok { command with noMinimalEscape := true }
  | .noRename => .ok { command with noRename := true }
  | .noControlFlow => .ok { command with noControlFlow := true }
  | .noColor => .ok { command with noColor := true }
  | .help => .error .displayHelp
  | .version => .error .displayVersion

/-- Takes a parameter in, which may be given once. -/
def give (reading : Reading) (parameter : Parameter) (value : String) :
    Except ArgumentError Reading :=
  if reading.given.contains parameter then .error .conflict
  else (assign reading.command value parameter).map fun command =>
    { reading with command := command, given := parameter :: reading.given }

/-- Looks at what has been given last. -/
def settle (reading : Reading) : Except ArgumentError Reading :=
  match reading.pending with
  | none => .ok reading
  | some (_, none) => .error .invalidValue
  | some (parameter, some value) => { reading with pending := none }.give parameter value

/-- Reads an option with the value attached to it, if there is one. -/
def option (reading : Reading) (parameter : Parameter) (attached : Option String) :
    Except ArgumentError Reading :=
  match parameter.takesValue, attached with
  | true, some value => do (← reading.settle).give parameter value
  | true, none => reading.settle.map fun reading =>
    { reading with pending := some (parameter, none) }
  | false, some _ => .error .tooManyValues
  | false, none => do (← reading.settle).give parameter ""

/-- Reads what stands behind two dashes. -/
def longOption (reading : Reading) (text : List Char) : Except ArgumentError Reading :=
  let name := String.ofList (text.takeWhile (· ≠ '='))
  let attached := match text.dropWhile (· ≠ '=') with
    | _ :: value => some (String.ofList value)
    | [] => none
  match Parameter.ofLongName? name with
  | some parameter => reading.option parameter attached
  | none => .error .unknown

/-- Reads the letters behind one dash. -/
def letters (reading : Reading) : List Char → Except ArgumentError Reading
  | [] => .ok reading
  | letter :: rest =>
    match Parameter.ofLetter? letter with
    | none => .error .unknown
    | some parameter =>
      if parameter.takesValue then
        let attached := match rest with
          | [] => none
          | '=' :: value => some (String.ofList value)
          | value => some (String.ofList value)
        reading.option parameter attached
      else (reading.option parameter none).bind fun reading => reading.letters rest

/-- Reads an argument that is no option. -/
def positional (reading : Reading) (argument : String) : Except ArgumentError Reading :=
  if reading.hasInput then .error .unknown
  else reading.settle.map fun reading =>
    { reading with pending := some (.input, some argument), hasInput := true }

/-- Reads an argument that may be an option. -/
def argument (reading : Reading) (argument : String) : Except ArgumentError Reading :=
  match argument.toList, reading.pending with
  | '-' :: '-' :: text, _ => reading.longOption text
  | '-' :: letter :: text, _ => reading.letters (letter :: text)
  | _, some (parameter, none) =>
    .ok { reading with pending := some (parameter, some argument) }
  | _, _ => reading.positional argument

end Reading

/-- Reads arguments.  Behind `--` none is an option. -/
def readArguments (reading : Reading) : List String → Except ArgumentError Reading
  | [] => .ok reading
  | "--" :: rest => rest.foldlM Reading.positional reading
  | argument :: rest => do readArguments (← reading.argument argument) rest

/-- The command that some arguments ask for. -/
def parse (arguments : List String) : Except ArgumentError CommandLine := do
  let reading ← readArguments Reading.start arguments
  let reading ← reading.settle
  if reading.hasInput then .ok reading.command else .error .missingRequired

/-! ## Running -/

/-- Why a command fails. -/
inductive Failure where
  | unreadable (path : String)
  | unwritable (path : String)
  | syntaxErrors (file : String) (errors : List SyntaxError)
  deriving Repr

/-- The message of a failure. -/
def Failure.message : Failure → String
  | .unreadable path => "failed to read " ++ path
  | .unwritable path => "failed to write " ++ path
  | .syntaxErrors file errors => syntaxFailure file errors

/-- Whether the input is the standard input. -/
def readsStandardInput (command : CommandLine) : Bool := command.input == "-"

/-- The name of the input in messages. -/
def fileName (command : CommandLine) : String :=
  if command.readsStandardInput then "<stdin>" else command.input

/-- The passes that the command runs. -/
def passOptions (command : CommandLine) : PassOptions where
  skipRename := command.noRename
  skipNormalize := false
  skipControlFlow := command.noControlFlow
  skipHoist := false

/-- How the command prints. -/
def printerOptions (command : CommandLine) : PrinterOptions where
  removeComments := !command.keepComments
  minimalEscape := !command.noMinimalEscape
  indentWidth := command.indent

/-- Deobfuscates the text of the input. -/
def run (command : CommandLine) (text : List Char) : Except Failure Deobfuscated :=
  (deobfuscate text command.passOptions command.printerOptions).mapError
    (Failure.syntaxErrors command.fileName)

/-- What the command reports about the text of its input. -/
def report (command : CommandLine) (text : List Char) (isTerminal : Bool)
    (diagnostics : List Diagnostic) : String :=
  let reporter := Reporter.ofText command.fileName text (isTerminal && !command.noColor)
  match command.diagnostics with
  | .text => reporter.render diagnostics
  | .json => reporter.renderJson diagnostics

end CommandLine

end Unflatten
