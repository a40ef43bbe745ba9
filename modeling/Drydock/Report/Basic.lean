import Drydock.Report.Finding
import Drydock.Time.Instant

/-! Reports: findings with a score, a grade and counts. The score is 100 less
the penalties of what failed. The grade is the band of the score, and none
better than C while a rule that guards security has failed as an error. -/
namespace Drydock

/-- The rules whose failure as an error keeps the grade from being better than
C. -/
def securityCritical : List String :=
  ["no-root-user", "no-sudo-install", "no-secrets"]

namespace Finding

def penalty (f : Finding) : Nat :=
  if f.passed then 0 else f.severity.penalty

def capsGrade (f : Finding) : Bool :=
  !f.passed && f.severity = .error && securityCritical.contains f.rule

end Finding

def totalPenalty : List Finding → Nat
  | [] => 0
  | f :: rest => f.penalty + totalPenalty rest

def scoreOf (findings : List Finding) : Nat :=
  100 - totalPenalty findings

def isCapped (findings : List Finding) : Bool :=
  findings.any Finding.capsGrade

/-- The grade for a score in view of the findings. -/
def gradeOf (score : Nat) (findings : List Finding) : Grade :=
  if isCapped findings then (Grade.ofScore score).atMostC else Grade.ofScore score

/-- How many findings there are of each kind. -/
structure Tally where
  passed : Nat
  failed : Nat
  errors : Nat
  warnings : Nat
  infos : Nat
  deriving DecidableEq, Repr

namespace Tally

def add (s t : Tally) : Tally :=
  { passed := s.passed + t.passed
    failed := s.failed + t.failed
    errors := s.errors + t.errors
    warnings := s.warnings + t.warnings
    infos := s.infos + t.infos }

def failedAt (severity : Severity) (findings : List Finding) : Nat :=
  findings.countP (fun f => !f.passed && f.severity = severity)

def of (findings : List Finding) : Tally :=
  { passed := findings.countP (·.passed)
    failed := findings.countP (!·.passed)
    errors := failedAt .error findings
    warnings := failedAt .warning findings
    infos := failedAt .info findings }

end Tally

/-- What is known about a build file after all checks. -/
structure Report where
  findings : List Finding
  score : Nat
  grade : Grade
  tally : Tally
  time : Instant
  evaluation : Evaluation
  deriving DecidableEq, Repr

namespace Report

def build (findings : List Finding) (evaluation : Evaluation) (time : Instant) : Report :=
  { findings, evaluation, time
    score := scoreOf findings
    grade := gradeOf (scoreOf findings) findings
    tally := Tally.of findings }

/-- The name under which a broken file is reported. -/
def parseErrorRule : String := "parse-error"

/-- The report on a file that is too broken for any rule. -/
def broken (message : String) (time : Instant) : Report :=
  let finding := Finding.fail parseErrorRule .error ("Dockerfile syntax error: " ++ message)
    "Fix the syntax error before validating further"
  { build [finding] .parseError time with score := 0, grade := .F }

/-- A report with the findings of a linter added. Score and grade stay those of
the report itself; the linter's findings only count. -/
def merge (own linter : Report) : Report :=
  { own with
    findings := own.findings ++ linter.findings.map ({ · with origin := .external })
    tally := own.tally.add linter.tally }

/-- The report on the same findings, made anew. -/
def rebuild (r : Report) : Report :=
  build r.findings r.evaluation r.time

def hasFailures (r : Report) : Bool :=
  0 < r.tally.failed

def failures (r : Report) : List Finding :=
  r.findings.filter (!·.passed)

def find? (r : Report) (rule : String) : Option Finding :=
  r.findings.find? (·.rule == rule)

/-- Whether a rule has failed anywhere. -/
def failed (r : Report) (rule : String) : Bool :=
  r.findings.any (fun f => f.rule == rule && !f.passed)

end Report

end Drydock
