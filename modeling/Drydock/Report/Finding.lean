import Drydock.Report.Level

/-! Findings: the verdict of one check, passed or failed. The message of a
finding begins with a mark that tells which; only a failed one suggests a
remedy. -/
namespace Drydock

/-- The verdict of one check. -/
structure Finding where
  /-- The name of the rule that was checked. -/
  rule : String
  passed : Bool
  severity : Severity
  category : Option Category
  message : String
  suggestions : List String
  /-- What in particular was found, such as the name of a variable. -/
  details : Option String
  /-- The line it concerns, counted from one. -/
  line : Option Nat
  origin : Origin
  deriving DecidableEq, Repr

namespace Finding

def pass (rule : String) (severity : Severity) (message : String) : Finding :=
  { rule, severity
    passed := true
    category := none
    message := "✓ " ++ message
    suggestions := []
    details := none
    line := none
    origin := .internal }

/-- A check that failed, with a remedy. -/
def fail (rule : String) (severity : Severity) (message remedy : String) : Finding :=
  { rule, severity
    passed := false
    category := none
    message := "✗ " ++ message
    suggestions := [remedy]
    details := none
    line := none
    origin := .internal }

end Finding

end Drydock
