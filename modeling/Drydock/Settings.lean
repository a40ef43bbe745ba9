import Drydock.Report.Format
import Drydock.Toml.Decode
import Drydock.Toml.Document
import Drydock.Validator

/-! Settings, as a project or a user keeps them in a file. -/
namespace Drydock

structure LinterSettings where
  /-- The program, which is looked for on the search path if it has no slash. -/
  binary : String
  /-- Further arguments. -/
  arguments : List String
  deriving DecidableEq, Repr

/-- How the report is put out and judged. -/
structure OutputSettings where
  format : OutputFormat
  /-- The score below which a file does not pass. -/
  threshold : Option Nat
  deriving DecidableEq, Repr

structure Settings where
  options : Options
  linter : LinterSettings
  output : OutputSettings
  deriving DecidableEq, Repr

inductive SettingsError where
  /-- It is not a document, or a value in it has the wrong type. The detail is
  the line or the word at fault, or empty. -/
  | malformed (detail : Text)
  /-- A value has the right type and is not acceptable. -/
  | invalid (key value : String)
  deriving DecidableEq, Repr

namespace SettingsError

/-- A detail below the line it belongs to. -/
def quote (detail : Text) : Text :=
  if detail.isEmpty then []
  else ((Text.splitAt '\n' detail).map ("\n  | ".toList ++ ·)).flatten

def message : SettingsError → String
  | .malformed detail =>
    "Configuration error: Failed to parse configuration" ++ String.ofList (quote detail)
  | .invalid key value => "Configuration error: Invalid value for '" ++ key ++ "': " ++ value

/-- The line of a text in which an ending of it begins. An ending that is empty
begins in the last line. -/
def lineAt (content place : Text) : Text :=
  let position := min (content.length - place.length) (content.length - 1)
  let before := ((content.take position).reverse.takeWhile (· != '\n')).reverse
  before ++ Text.before '\n' (content.drop position)

def ofFault (content : Text) : Toml.Fault → SettingsError
  | .unreadable place => .malformed (lineAt content place)
  | .conflict => .malformed []

def ofMismatch : Toml.Mismatch → SettingsError
  | .type => .malformed []
  | .word name => .malformed ("unknown word `" ++ name ++ "`").toList

end SettingsError

namespace Settings

/-- The name of a settings file in a project's or a user's directory. -/
def fileName : String := ".dockerfile-validator.toml"

def default : Settings :=
  { options := .default
    linter := { binary := Linter.defaultBinary, arguments := [] }
    output := { format := .terminal, threshold := none } }

def optionsOf (v : Toml.Value) : Except Toml.Mismatch Options := do
  let fields ← v.fields
    ["enable_external_linter", "target_platform", "strict_platform_validation"]
  return {
    useLinter := ← Toml.Value.field fields 0 default.options.useLinter Toml.Value.asBool
    platform := ← Toml.Value.field fields 1 default.options.platform
      (fun v => v.asString.map some)
    strictPlatform :=
      ← Toml.Value.field fields 2 default.options.strictPlatform Toml.Value.asBool }

def linterOf (v : Toml.Value) : Except Toml.Mismatch LinterSettings := do
  let fields ← v.fields ["binary", "extra_args"]
  return {
    binary := ← Toml.Value.field fields 0 default.linter.binary Toml.Value.asString
    arguments := ← Toml.Value.field fields 1 default.linter.arguments
      (Toml.Value.asList Toml.Value.asString) }

def outputOf (v : Toml.Value) : Except Toml.Mismatch OutputSettings := do
  let fields ← v.fields ["format", "fail_under"]
  return {
    threshold := ← Toml.Value.field fields 1 default.output.threshold
      (fun v => (v.asNat 8).map some)
    format := ← Toml.Value.field fields 0 default.output.format
      (Toml.Value.asWord OutputFormat.ofName?) }

/-- Settings out of a document, whether or not they are acceptable. -/
def ofDocument (document : Toml.Entries) : Except Toml.Mismatch Settings := do
  let fields ← (Toml.Value.table .headed document).fields ["linter", "output", "validation"]
  return {
    linter := ← Toml.Value.field fields 0 default.linter linterOf
    output := ← Toml.Value.field fields 1 default.output outputOf
    options := ← Toml.Value.field fields 2 default.options optionsOf }

/-- The first value that is not acceptable: a threshold above a hundred, or a
linter without a name. -/
def fault? (s : Settings) : Option SettingsError :=
  match s.output.threshold.filter (100 < ·) with
  | some threshold => some (.invalid "output.fail_under" threshold.repr)
  | none =>
    if Text.trim s.linter.binary.toList = [] then some (.invalid "linter.binary" s.linter.binary)
    else none

def parse (content : Text) : Except SettingsError Settings :=
  match Toml.document content with
  | .error fault => .error (.ofFault content fault)
  | .ok document =>
    match ofDocument document with
    | .error mismatch => .error (.ofMismatch mismatch)
    | .ok settings =>
      match settings.fault? with
      | some fault => .error fault
      | none => .ok settings

end Settings

end Drydock
