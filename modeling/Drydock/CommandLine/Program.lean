import Drydock.CommandLine.Reader
import Drydock.Run

/-! The program as a whole: from its arguments to its exit status. -/
namespace Drydock

/-- Whether a command line asks to see a message. -/
def LogRecord.isShown (c : CommandLine) (r : LogRecord) : Bool :=
  !c.quiet && r.level.depth ≤ c.verbosity

structure Exit where
  status : Nat
  /-- What went wrong after the arguments were read. -/
  error : Option String
  log : List LogRecord
  output : Text
  deriving DecidableEq, Repr

namespace Exit

def programName : String := "dfvalidate"

def version : String := "0.4.0"

def usage : String :=
  "Usage: " ++ programName ++ " [OPTIONS] [DOCKERFILE]\n"

def help : String :=
  "Validate and score Dockerfiles\n\n" ++ usage ++ "\n" ++
  "Arguments:\n" ++
  "  [DOCKERFILE]  Dockerfile to validate, or '-' to read from stdin [default: Dockerfile]\n\n" ++
  "Options:\n" ++
  "  -f, --format <FORMAT>        Output format [possible values: tty, json]\n" ++
  "      --no-external-linter     Skip the external linter\n" ++
  "      --linter-bin <BINARY>    External linter binary to run instead of 'hadolint'\n" ++
  "      --platform <PLATFORM>    Target platform, e.g. linux/arm64\n" ++
  "      --strict-platform        Enforce platform-specific validation\n" ++
  "      --fail-under <SCORE>     Exit with status 1 when the score is below this value\n" ++
  "      --no-color               Disable colored output\n" ++
  "  -c, --config <FILE>          Path to configuration file\n" ++
  "  -v, --verbose...             Enable verbose logging\n" ++
  "  -q, --quiet                  Suppress log output\n" ++
  "  -h, --help                   Print help\n" ++
  "  -V, --version                Print version\n"

/-- The end of a program that was asked for no validation. -/
def ofHalt : Halt → Exit
  | .help => { status := 0, error := none, log := [], output := help.toList }
  | .version =>
    { status := 0, error := none, log := []
      output := (programName ++ " " ++ version ++ "\n").toList }
  | _ => { status := 2, error := none, log := [], output := [] }

/-- The mark before the message about what went wrong. -/
def errorHeading : Text :=
  "Error: ".toList

def errorText (message : String) : Text :=
  errorHeading ++ message.toList ++ ['\n']

/-- All that is written to the standard error once the arguments were read. -/
def errorStream (e : Exit) : Text :=
  Log.text e.log ++ (e.error.map errorText).getD []

/-- The records that can be told from what is written to the standard error. -/
def logEntries (e : Exit) : List (LogLevel × Text) :=
  Log.entries e.errorStream

/-- The first line of the message about what went wrong, if it can be told from
what is written to the standard error. -/
def errorLine? (e : Exit) : Option Text :=
  (Text.lines e.errorStream).findSome? (Text.after? errorHeading)

/-- The end of a program after a run. -/
def ofRun (c : CommandLine) (log : List LogRecord) : Except RunError RunResult → Exit
  | .ok result =>
    { status := if result.passed then 0 else 1
      error := none
      log := log.filter (LogRecord.isShown c)
      output := result.output }
  | .error reason =>
    { status := 1
      error := some reason.message
      log := log.filter (LogRecord.isShown c)
      output := [] }

end Exit

def runProgram {m : Type → Type} [Monad m] (host : Host m) (arguments : List String) :
    m Exit := do
  match CommandLine.read arguments with
  | .error halt => return .ofHalt halt
  | .ok c =>
    let (log, result) ← Run.run host c
    return .ofRun c log result

end Drydock
