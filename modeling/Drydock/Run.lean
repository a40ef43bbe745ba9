import Drydock.CommandLine.Basic
import Drydock.Host.Basic
import Drydock.Log

/-! One run: settings, the build file, the linter, the report. -/
namespace Drydock

inductive RunError where
  | file (reason : FileError)
  | settings (reason : SettingsError)
  deriving DecidableEq, Repr

def RunError.message : RunError → String
  | .file reason => "I/O error: " ++ reason.message
  | .settings reason => reason.message

/-- What a run that comes to its end puts out. -/
structure RunResult where
  /-- Whether the score reaches the threshold. -/
  passed : Bool
  output : Text
  deriving DecidableEq, Repr

namespace Run

variable {m : Type → Type} [Monad m]

/-- The text that bytes stand for. -/
def textOf (bytes : List UInt8) : Except RunError Text :=
  match Utf8.decode? bytes with
  | some text => .ok text
  | none => .error (.file .notText)

def readText (host : Host m) (path : Text) : m (Except RunError Text) := do
  return match ← host.readFile path with
    | .ok bytes => textOf bytes
    | .error reason => .error (.file reason)

def readSettings (host : Host m) (path : Text) : m (Except RunError Settings) := do
  return (← readText host path).bind fun content =>
    match Settings.parse content with
    | .ok settings => .ok settings
    | .error reason => .error (.settings reason)

/-- The settings in the first file that is there and can be read, or the default
ones. A file that cannot be read is passed over with a warning. -/
def firstSettings (host : Host m) : List Text → m (List LogRecord × Settings)
  | [] => return ([], .default)
  | path :: rest => do
    if ← host.isPresent path then
      match ← readSettings host path with
      | .ok settings => return ([], settings)
      | .error reason =>
        let (log, settings) ← firstSettings host rest
        let message := "Ignoring " ++ String.ofList path ++ ": " ++ reason.message
        return ({ level := .warning, message } :: log, settings)
    else firstSettings host rest

/-- The settings for a command line: those in the file that it names, which has
to be there, or else those of the project or of the user. -/
def settingsFor (host : Host m) (c : CommandLine) :
    m (List LogRecord × Except RunError Settings) := do
  match c.settingsPath with
  | some path => return ([], ← readSettings host path.toList)
  | none =>
    let home? ← host.home?
    let places := c.projectDirectory?.toList ++ home?.toList
    let (log, settings) ←
      firstSettings host (places.map (Path.join · Settings.fileName.toList))
    return (log, .ok settings)

/-- The build file that a command line names. -/
def contentFor (host : Host m) (c : CommandLine) : m (Except RunError Text) := do
  if c.readsInput then return textOf (← host.readInput)
  else readText host c.target.toList

def lint (host : Host m) (settings : LinterSettings) (content : Text) (time : Instant) :
    m (Except Linter.Failure Report) := do
  let input := (String.ofList content).toUTF8.toList
  let outcome ← host.launch settings.binary (Linter.arguments settings.arguments) input
  return Linter.reportOf settings.binary time outcome

/-- A message for those who follow a run closely. -/
def detail (message : String) : LogRecord :=
  { level := .debug, message }

/-- The messages on the way to a report without a linter. -/
def details (options : Options) (content : Text) (report : Report) : List LogRecord :=
  let diagnostics := Precheck.check content
  (if options.platform.isSome || options.strictPlatform then
    [detail "Platform options accepted but unused"] else []) ++
  (if (BuildKit.detect content).any then [detail "BuildKit features detected"] else []) ++
  (diagnostics.filter (·.priority != Diagnostic.structural)).map
    (fun d => detail ("Syntax advisory: " ++ d.describe)) ++
  match Diagnostic.blocking diagnostics content with
  | [] =>
    [match parse content with
      | .ok instructions => detail ("Parsed " ++ instructions.length.repr ++ " instructions")
      | .error e => detail ("Tokenizer failed (" ++ e.message ++ "), using line heuristics"),
      detail ("Validated: score " ++ report.score.repr)]
  | blocking =>
    [detail ("Structural syntax error, skipping rules: " ++
      "; ".intercalate (blocking.map Diagnostic.describe))]

/-- The message about a linter's answer. -/
def linterLog : Except Linter.Failure Report → LogRecord
  | .ok found => detail (Linter.name ++ " reported " ++ found.findings.length.repr ++ " findings")
  | .error failure => { level := .warning, message := Validator.linterWarning failure }

/-- The report on a build file, with a warning if the linter was asked and
failed. -/
def report (host : Host m) (settings : Settings) (content : Text) :
    m (List LogRecord × Report) := do
  let time ← host.now
  let own := Validator.standard.validateInternal content time
  let log := details settings.options content own
  if Validator.asksLinter settings.options own then
    let answer ← lint host settings.linter content time
    return (log ++ [linterLog answer], Validator.withLinter own answer)
  else return (log, own)

def reaches (score : Nat) : Option Nat → Bool
  | some threshold => threshold ≤ score
  | none => true

/-- The message about a score below its threshold. -/
def thresholdLog (score : Nat) : Option Nat → List LogRecord
  | some threshold =>
    if score < threshold then
      [{ level := .info,
         message := "Score " ++ score.repr ++ " is below the threshold of " ++ threshold.repr }]
    else []
  | none => []

/-- Do what a command line asks for. -/
def run (host : Host m) (c : CommandLine) :
    m (List LogRecord × Except RunError RunResult) := do
  match ← settingsFor host c with
  | (log, .error reason) => return (log, .error reason)
  | (log, .ok settings) =>
    let settings := c.applyTo settings
    match ← contentFor host c with
    | .error reason => return (log, .error reason)
    | .ok content =>
      let (linterLog, report) ← report host settings content
      let colors := !c.noColor && (← host.isTerminal)
      let name := if c.readsInput then CommandLine.inputName else c.target
      let threshold := settings.output.threshold
      return (log ++ linterLog ++ thresholdLog report.score threshold,
        .ok
          { passed := reaches report.score threshold
            output := report.format name settings.output.format colors })

end Run

end Drydock
