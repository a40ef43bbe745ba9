import Drydock.Dockerfile.Instruction
import Drydock.Report.Basic

/-! Rules: checks over all instructions of a file, with the words in which their
verdict is reported. -/
namespace Drydock

/-- A rule that a build file should keep. -/
structure Rule where
  /-- The name it goes by in reports. -/
  id : String
  /-- What is said when it is kept. -/
  name : String
  description : String
  /-- Whether the instructions of a file keep it. -/
  holds : List Instruction → Bool
  /-- For some rules, what in particular breaks it. -/
  culprit? : Option (List Instruction → Option Text)
  /-- What is said when it is broken. -/
  message : String
  severity : Severity
  /-- How to mend what breaks it. -/
  remedy : String
  category : Category

namespace Rule

def isSecurityCritical (r : Rule) : Bool :=
  securityCritical.contains r.id

/-- The finding on a file that breaks the rule, with a message of its own. -/
def failure (r : Rule) (message : String) : Finding :=
  { Finding.fail r.id r.severity message r.remedy with category := some r.category }

def evaluate (r : Rule) (instructions : List Instruction) : Finding :=
  if r.holds instructions then
    { Finding.pass r.id r.severity r.name with category := some r.category }
  else
    match r.culprit?.bind (· instructions) with
    | some culprit =>
      let detail := String.ofList culprit
      { r.failure (r.message ++ ": " ++ detail) with details := some detail }
    | none => r.failure r.message

end Rule

def named (keyword : String) (instructions : List Instruction) : List Instruction :=
  instructions.filter (·.is keyword)

end Drydock
