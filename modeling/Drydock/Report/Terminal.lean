import Drydock.Report.Basic

/-! Reports for people to read: what failed, with its remedies, then what
passed, then score and grade. Every stretch of the text has a style or none;
colours are escape sequences put around the stretches with a style, so without
colours the same text is left. -/
namespace Drydock

/-- How a stretch of text is shown. -/
inductive Style where
  | bold
  | dim
  | green
  | severity (s : Severity)
  | grade (g : Grade)
  deriving DecidableEq, Repr

namespace Style

/-- The parameters of the escape sequence that turns a style on. -/
def parameters : Style → String
  | .bold => "1"
  | .dim => "2"
  | .green => "32"
  | .severity .error => "1;31"
  | .severity .warning => "1;33"
  | .severity .info => "1;36"
  | .grade .A => "1;32"
  | .grade .B => "1;32"
  | .grade .C => "1;33"
  | .grade .D => "1;33"
  | .grade .F => "1;31"

/-- The escape sequence with given parameters. -/
def sequence (parameters : String) : Text :=
  '\x1b' :: '[' :: parameters.toList ++ ['m']

/-- The escape sequence that turns a style on. -/
def start (s : Style) : Text :=
  sequence s.parameters

def reset : Text :=
  sequence "0"

end Style

/-- A stretch of text with a style or none. -/
structure Fragment where
  style : Option Style
  text : Text
  deriving DecidableEq, Repr

namespace Fragment

def plain (text : String) : Fragment :=
  { style := none, text := text.toList }

def styled (style : Style) (text : String) : Fragment :=
  { style := some style, text := text.toList }

/-- The text of a fragment, with escape sequences around it when colours are
on. -/
def render (colors : Bool) (f : Fragment) : Text :=
  match f.style with
  | some style => if colors then style.start ++ f.text ++ Style.reset else f.text
  | none => f.text

end Fragment

namespace Report

def failureFragments (f : Finding) : List Fragment :=
  [.plain "  "] ++
    (match f.line with
      | some line => [.styled .dim (line.repr ++ ":"), .plain " "]
      | none => []) ++
    [.styled (.severity f.severity) f.severity.label, .plain " ", .styled .dim f.rule] ++
    (if f.origin = .external then [.plain " ", .styled .dim "(external)"] else []) ++
    [.plain (": " ++ f.message ++ "\n")] ++
    f.suggestions.flatMap
      (fun remedy => [.plain "      ", .styled .dim ("→ " ++ remedy), .plain "\n"])

def passFragments (f : Finding) : List Fragment :=
  [.plain "  ", .styled .green f.message, .plain "\n"]

/-- A count with its unit, which takes an s when the count is not one. -/
def counted (n : Nat) (unit : String) : String :=
  n.repr ++ " " ++ unit ++ (if n = 1 then "" else "s")

/-- The counts of what failed, for each severity that occurs. -/
def countFragments (t : Tally) : List Fragment :=
  let counts :=
    (if 0 < t.errors then [.styled (.severity .error) (counted t.errors "error")] else []) ++
    (if 0 < t.warnings then
      [.styled (.severity .warning) (counted t.warnings "warning")] else []) ++
    (if 0 < t.infos then [.styled (.severity .info) (t.infos.repr ++ " info")] else [])
  if counts.isEmpty then [.styled .green "no issues"]
  else counts.intersperse (.plain ", ")

/-- The whole text for people, stretch by stretch. -/
def fragments (r : Report) (fileName : String) (showPassed : Bool) : List Fragment :=
  [.styled .bold fileName, .plain "\n"] ++
    r.failures.flatMap failureFragments ++
    (if showPassed then (r.findings.filter (·.passed)).flatMap passFragments else []) ++
    [.plain "\nScore: ", .styled .bold (r.score.repr ++ "/100"), .plain " Grade: ",
      .styled (.grade r.grade) r.grade.label, .plain " ("] ++
    countFragments r.tally ++
    [.plain ")\n"]

def terminalText (r : Report) (fileName : String) (colors showPassed : Bool) : Text :=
  (r.fragments fileName showPassed).flatMap (Fragment.render colors)

end Report

end Drydock
