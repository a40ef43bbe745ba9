import Drydock.Report.Terminal
import Drydock.Report.Wire

/-! The forms in which a report is put out. -/
namespace Drydock

inductive OutputFormat where
  | terminal
  | json
  deriving DecidableEq, Repr, Inhabited

namespace OutputFormat

def name : OutputFormat → String
  | .terminal => "tty"
  | .json => "json"

def ofName? : String → Option OutputFormat
  | "tty" => some .terminal
  | "json" => some .json
  | _ => none

end OutputFormat

namespace Report

/-- The report as JSON on many lines. -/
def prettyJson (r : Report) : Text :=
  r.toJson.pretty 0 ++ ['\n']

/-- The report as JSON on one line. -/
def compactJson (r : Report) : Text :=
  r.encode ++ ['\n']

/-- The report in a given form. Colours matter for people alone. -/
def format (r : Report) (fileName : String) (form : OutputFormat) (colors : Bool) : Text :=
  match form with
  | .terminal => r.terminalText fileName colors true
  | .json => r.prettyJson

end Report

end Drydock
