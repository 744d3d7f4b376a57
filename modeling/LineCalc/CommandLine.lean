/-
The command line: an optional script file, an option for the default base, and flags. A script is
run to its end or its first fault; what it printed is shown in either case. The log of the run goes
to the error stream, before the report. The flag that asks for more of it is read, but the log
itself is given by whoever starts the script.
-/
import LineCalc.FileTree
import LineCalc.Log
import LineCalc.Text.Bold

namespace LineCalc.CommandLine

/-! ## Requests -/

structure Arguments where
  file : Option String := none
  base : Option String := none
  verbose : Bool := false
deriving DecidableEq

/-- What a command line asks for. -/
inductive Request where
  | version
  | help
  | start (arguments : Arguments)
deriving DecidableEq

inductive UsageError where
  | unknownOption (name : String)
  | repeatedOption (name : String)
  | missingValue (name : String)
  | unwantedValue (name : String)
  | emptyFile
  | secondFile (path : String)
deriving DecidableEq

def UsageError.message : UsageError → String
  | unknownOption name => "error: unknown option '" ++ name ++ "'"
  | repeatedOption name => "error: the option '--" ++ name ++ "' is given twice"
  | missingValue name => "error: the option '--" ++ name ++ "' needs a value"
  | unwantedValue name => "error: the option '--" ++ name ++ "' takes no value"
  | emptyFile => "error: the file has no name"
  | secondFile path => "error: unexpected argument '" ++ path ++ "'"

/-! ## Reading arguments -/

namespace Arguments

def setBase (arguments : Arguments) (base : List Char) : Except UsageError Arguments :=
  if arguments.base.isSome then .error (.repeatedOption "base")
  else .ok { arguments with base := some (String.ofList base) }

def setVerbose (arguments : Arguments) : Except UsageError Arguments :=
  if arguments.verbose then .error (.repeatedOption "verbose")
  else .ok { arguments with verbose := true }

def setFile (arguments : Arguments) (path : List Char) : Except UsageError Arguments :=
  if arguments.file.isSome then .error (.secondFile (String.ofList path))
  else if path.isEmpty then .error .emptyFile
  else .ok { arguments with file := some (String.ofList path) }

end Arguments

/-- What is known after an argument: the arguments so far, or so far but for the base, which the
next argument gives, or the whole request. -/
inductive Progress where
  | next (arguments : Arguments)
  | awaitBase (arguments : Arguments)
  | settled (request : Request)

/-- Reads short options that stand together. The base takes all that follows it, without one `=`;
if nothing follows, it takes the next argument. -/
def readShort (arguments : Arguments) : List Char → Except UsageError Progress
  | [] => .ok (.next arguments)
  | 'v' :: flags => do readShort (← arguments.setVerbose) flags
  | 'b' :: [] => .ok (.awaitBase arguments)
  | 'b' :: '=' :: value => .next <$> arguments.setBase value
  | 'b' :: value => .next <$> arguments.setBase value
  | 'V' :: _ => .ok (.settled .version)
  | 'h' :: _ => .ok (.settled .help)
  | flag :: _ => .error (.unknownOption (String.ofList ['-', flag]))

/-- The name of a long option and the value after its first `=`. -/
def splitValue (option : List Char) : String × Option (List Char) :=
  match option.span (· ≠ '=') with
  | (name, []) => (String.ofList name, none)
  | (name, _ :: value) => (String.ofList name, some value)

/-- Reads a long option, given without its dashes. Names are not abbreviated. -/
def readLong (arguments : Arguments) (option : List Char) : Except UsageError Progress :=
  match splitValue option with
  | ("base", none) => .ok (.awaitBase arguments)
  | ("base", some value) => .next <$> arguments.setBase value
  | ("verbose", none) => .next <$> arguments.setVerbose
  | ("version", none) => .ok (.settled .version)
  | ("help", none) => .ok (.settled .help)
  | (name, _) =>
    if name ∈ ["verbose", "version", "help"] then .error (.unwantedValue name)
    else .error (.unknownOption ("--" ++ name))

/-- Reads one argument. A dash alone is a file. -/
def readArgument (arguments : Arguments) : List Char → Except UsageError Progress
  | '-' :: '-' :: option => readLong arguments option
  | '-' :: flag :: flags => readShort arguments (flag :: flags)
  | path => .next <$> arguments.setFile path

/-- Whether an argument is an option, and so cannot be the value of one. -/
def isOption : List Char → Bool
  | '-' :: _ :: _ => true
  | _ => false

/-- Takes every argument as a file. -/
def readFiles (arguments : Arguments) : List (List Char) → Except UsageError Arguments
  | [] => .ok arguments
  | path :: paths => do readFiles (← arguments.setFile path) paths

/-- Reads arguments from left to right, up to the first that settles the request. After `--` every
argument is a file. -/
def readArguments (arguments : Arguments) : List (List Char) → Except UsageError Request
  | [] => .ok (.start arguments)
  | arg :: args =>
    if arg = ['-', '-'] then .start <$> readFiles arguments args
    else match readArgument arguments arg, args with
      | .error fault, _ => .error fault
      | .ok (.settled request), _ => .ok request
      | .ok (.next arguments), args => readArguments arguments args
      | .ok (.awaitBase _), [] => .error (.missingValue "base")
      | .ok (.awaitBase arguments), value :: args =>
        if isOption value then .error (.missingValue "base")
        else do readArguments (← arguments.setBase value) args

def Request.ofArguments (args : List String) : Except UsageError Request :=
  readArguments {} (args.map String.toList)

/-! ## Jobs -/

/-- What a finished process leaves: its exit code and what it wrote to its two streams. -/
structure Outcome where
  code : UInt8
  stdout : String := ""
  stderr : String := ""
deriving DecidableEq

/-- What is left to do once the request is known. -/
inductive Job where
  | finish (outcome : Outcome)
  | script (path : String) (calculator : Calculator)
  | converse (calculator : Calculator)

def versionText : String := "basecalc 0.1.0\n"

def helpText : String :=
  "Line-oriented calculator with selectable output base\n\n" ++
  "Usage: basecalc [OPTIONS] [FILE]\n\n" ++
  "Arguments:\n" ++
  "  [FILE]  Script to run. Starts the interactive editor when omitted\n\n" ++
  "Options:\n" ++
  "  -b, --base <BASE>  Base in effect before the first `config` (dec, hex or bin)\n" ++
  "  -v, --verbose      Enable debug logging\n" ++
  "  -h, --help         Print help\n" ++
  "  -V, --version      Print version\n"

/-- The job of a request. A base that is none ends it before a script is read. -/
def Request.job : Request → Job
  | version => .finish { code := 0, stdout := versionText }
  | help => .finish { code := 0, stdout := helpText }
  | start arguments =>
    match arguments.base.mapM Base.ofSetting with
    | .error report => .finish { code := 2, stderr := boldLine report.text }
    | .ok base =>
      let calculator : Calculator := { defaultBase := base }
      match arguments.file with
      | some path => .script path calculator
      | none => .converse calculator

/-! ## Scripts -/

/-- The text of a script, which has to be UTF-8. -/
def decodeScript (content : ByteArray) : Except ReadFailure String :=
  match String.fromUTF8? content with
  | some source => .ok source
  | none => .error .notText

/-- Runs the script with this content, if its file could be read. -/
def runScript (path : String) (calculator : Calculator) (content : Except ReadFailure ByteArray)
    (log : Log := .off) : Outcome :=
  match content.bind decodeScript with
  | .error failure => { code := 1, stderr := boldLine (path ++ ": " ++ failure.message) }
  | .ok source =>
    let logged := log.text (calculator.logEvents source)
    let (result, calculator) := calculator.run source
    let stdout := calculator.output.display
    match result with
    | .ok () => { code := 0, stdout, stderr := logged }
    | .error report => { code := 1, stdout, stderr := logged ++ boldLine report.text }

end LineCalc.CommandLine
