import Drydock.Report.Wire
import Drydock.Text.Blank
import Drydock.Text.Utf8

/-! A linter that runs beside the library as a program of its own. It reads the
build file from its standard input and writes its findings as a JSON array. It
may end with any status when it has findings, so what it wrote decides: only
without readable findings does a failure status count as a failure. -/
namespace Drydock.Linter

/-- The program that is run unless another is named. -/
def defaultBinary : String := "hadolint"

/-- The name that the linter goes by in messages. -/
def name : String := "hadolint"

/-- A finding as the linter writes it. -/
structure Entry where
  line : Nat
  code : String
  message : String
  level : String
  column : Option Nat
  deriving DecidableEq, Repr

namespace Entry

def wikiUrl (code : String) : String :=
  "https://github.com/hadolint/hadolint/wiki/" ++ code

def fieldNames : List String :=
  ["line", "code", "message", "level", "column"]

def ofJson? (j : Json) : Option Entry := do
  let fields ← j.fields? fieldNames
  return {
    line := ← fields.required? 0 (Json.asNat? 32)
    code := ← fields.required? 1 Json.asString?
    message := ← fields.required? 2 Json.asString?
    level := ← fields.required? 3 Json.asString?
    column := ← fields.defaulted? 4 none (Json.orNull? (Json.asNat? 32)) }

/-- A finding of the linter as one of a report. A level without a severity
counts as `info`. -/
def toFinding (e : Entry) : Finding :=
  let severity := (Severity.ofLevel? e.level.toList).getD .info
  { Finding.fail e.code severity e.message (wikiUrl e.code) with
    line := some e.line
    details := e.column.map (fun column => "column " ++ column.repr) }

end Entry

def findings? (output : Text) : Option (List Finding) :=
  (Json.parse? (Text.trim output)).bind fun j =>
    (Json.asList? Entry.ofJson? j).map (·.map Entry.toFinding)

structure Outcome where
  stdout : List UInt8
  stderr : List UInt8
  /-- The exit status; there is none when a signal ended the program. -/
  status : Option Nat
  deriving DecidableEq, Repr

inductive LaunchError where
  | notFound
  | permissionDenied
  | notADirectory
  | nameTooLong
  /-- A name or an argument holds the character that ends them inside the
  system. -/
  | nulInArgument
  deriving DecidableEq, Repr

def LaunchError.message : LaunchError → String
  | .notFound => "No such file or directory (os error 2)"
  | .permissionDenied => "Permission denied (os error 13)"
  | .notADirectory => "Not a directory (os error 20)"
  | .nameTooLong => "File name too long (os error 36)"
  | .nulInArgument => "nul byte found in provided data"

/-- Why there are no findings. -/
inductive Failure where
  /-- The program is missing or may not be run. -/
  | unavailable (binary : String) (reason : LaunchError)
  /-- The program could not be started for another reason. -/
  | io (reason : LaunchError)
  /-- The program failed and wrote nothing readable. -/
  | failed (status : Option Nat) (stderr : Text)
  /-- The program succeeded and wrote nothing readable. -/
  | unreadable
  deriving DecidableEq, Repr

/-- A status as messages show it. -/
def statusText : Option Nat → String
  | some n => "Some(" ++ n.repr ++ ")"
  | none => "None"

namespace Failure

def message : Failure → String
  | .unavailable binary reason =>
    "External linter '" ++ binary ++ "' is not available: " ++ reason.message
  | .io reason => "I/O error: " ++ reason.message
  | .failed status stderr =>
    "External linter failed (exit code " ++ statusText status ++ "): " ++ String.ofList stderr
  | .unreadable => "Failed to decode external linter output"

/-- The failure to start a program. -/
def ofLaunch (binary : String) : LaunchError → Failure
  | .notFound => .unavailable binary .notFound
  | .permissionDenied => .unavailable binary .permissionDenied
  | reason => .io reason

end Failure

def arguments (extra : List String) : List String :=
  ["--format", "json"] ++ extra ++ ["-"]

def findingsOf (outcome : Outcome) : Except Failure (List Finding) :=
  match findings? (Utf8.decodeLossy outcome.stdout) with
  | some findings => .ok findings
  | none =>
    if outcome.status = some 0 then .error .unreadable
    else .error (.failed outcome.status (Text.trim (Utf8.decodeLossy outcome.stderr)))

/-- The report of a program that was started or could not be. -/
def reportOf (binary : String) (time : Instant) :
    Except LaunchError Outcome → Except Failure Report
  | .error reason => .error (.ofLaunch binary reason)
  | .ok outcome => (findingsOf outcome).map (fun findings => .build findings .external time)

end Drydock.Linter
