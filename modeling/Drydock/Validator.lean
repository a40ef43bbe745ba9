import Drydock.Dockerfile.Parse
import Drydock.Dockerfile.Precheck
import Drydock.Linter
import Drydock.Rule.LineScan

/-! Validation of a build file. A file that fails the first check gets a report
of that alone. Otherwise the rules are applied to its instructions, or line by
line when it does not parse. At last the findings of a linter are added, if one
is asked for and answers. -/
namespace Drydock

structure Options where
  /-- Whether the linter is asked. -/
  useLinter : Bool
  /-- The platform to build for. No rule depends on it yet. -/
  platform : Option String
  /-- Whether rules on platforms are strict. No rule depends on it yet. -/
  strictPlatform : Bool
  deriving DecidableEq, Repr

namespace Options

def default : Options :=
  { useLinter := true, platform := none, strictPlatform := false }

def internalOnly : Options :=
  { default with useLinter := false }

def fieldNames : List String :=
  ["enableExternalLinter", "targetPlatform", "strictPlatformValidation"]

/-- Options given as JSON, where every field may be left out. -/
def ofJson? (j : Json) : Option Options := do
  let fields ← j.fields? fieldNames
  return {
    useLinter := ← fields.defaulted? 0 default.useLinter Json.asBool?
    platform := ← fields.defaulted? 1 default.platform (Json.orNull? Json.asString?)
    strictPlatform := ← fields.defaulted? 2 default.strictPlatform Json.asBool? }

end Options

/-- The parts that validation is put together from. -/
structure Validator where
  /-- Read instructions, if the text can be read. -/
  tokenize : Text → Option (List Instruction)
  /-- The first check. -/
  precheck : Text → List Diagnostic

namespace Validator

/-- The parts that this library has of its own. -/
def standard : Validator :=
  { tokenize := fun content => (parse content).toOption
    precheck := Precheck.check }

def validateInternal (v : Validator) (content : Text) (time : Instant) : Report :=
  match Diagnostic.blocking (v.precheck content) content with
  | [] =>
    match v.tokenize content with
    | some instructions => .build (Rule.evaluateAll instructions) .structured time
    | none => .build (LineScan.scan (BuildKit.detect content) content) .heuristic time
  | blocking => .broken ("; ".intercalate (blocking.map Diagnostic.describe)) time

/-- Whether the linter is asked about a file with this report. -/
def asksLinter (options : Options) (report : Report) : Bool :=
  options.useLinter && report.evaluation ≠ .parseError

/-- A report with the findings of a linter, if it has any. -/
def withLinter (report : Report) : Except Linter.Failure Report → Report
  | .ok findings => report.merge findings
  | .error _ => report

def linterWarning (failure : Linter.Failure) : String :=
  Linter.name ++ " failed, using internal results only: " ++ failure.message

/-- Validate, with a linter if there is one. A linter that fails changes
nothing. -/
def validate (v : Validator) (linter? : Option (Text → Except Linter.Failure Report))
    (options : Options) (content : Text) (time : Instant) : Report :=
  let report := v.validateInternal content time
  match linter? with
  | some linter => if asksLinter options report then withLinter report (linter content) else report
  | none => report

end Validator

end Drydock
