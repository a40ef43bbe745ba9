import Drydock.Text.Basic

/-! The closed vocabularies of a report: how severe a finding is, what it is
about, who reported it, how the report came about, and the grade. -/
namespace Drydock

inductive Severity where
  | error
  | warning
  | info
  deriving DecidableEq, Repr

/-- Without a reason for more, a finding is only information. -/
instance : Inhabited Severity := ⟨.info⟩

namespace Severity

def penalty : Severity → Nat
  | .error => 15
  | .warning => 4
  | .info => 1

/-- The place in the order from the least to the most severe. -/
def rank : Severity → Nat
  | .info => 0
  | .warning => 1
  | .error => 2

def label : Severity → String
  | .error => "error"
  | .warning => "warning"
  | .info => "info"

/-- The severity for a level that a linter names, in letters of either case. A
linter's lowest level, `style`, counts as `info`. -/
def ofLevel? (level : Text) : Option Severity :=
  let name := Text.lower level
  if name = "error".toList then some .error
  else if name = "warning".toList then some .warning
  else if name = "info".toList || name = "style".toList then some .info
  else none

def ascending (severities : List Severity) : List Severity :=
  severities.mergeSort (fun s t => s.rank ≤ t.rank)

end Severity

inductive Category where
  | security
  | bestPractice
  | optimization
  deriving DecidableEq, Repr

def Category.label : Category → String
  | .security => "security"
  | .bestPractice => "best-practice"
  | .optimization => "optimization"

/-- Who reported a finding: the library itself or a linter run beside it. -/
inductive Origin where
  | internal
  | external
  deriving DecidableEq, Repr

/-- How a report came about. -/
inductive Evaluation where
  /-- The rules were applied to parsed instructions. -/
  | structured
  /-- Lines were scanned because the file could not be parsed. -/
  | heuristic
  /-- The file is broken and no rule was applied. -/
  | parseError
  /-- A linter beside the library reported. -/
  | external
  deriving DecidableEq, Repr

inductive Grade where
  | A
  | B
  | C
  | D
  | F
  deriving DecidableEq, Repr

namespace Grade

/-- The grade that a score earns by itself. -/
def ofScore (score : Nat) : Grade :=
  if 90 ≤ score then .A
  else if 80 ≤ score then .B
  else if 70 ≤ score then .C
  else if 60 ≤ score then .D
  else .F

def atMostC : Grade → Grade
  | .A => .C
  | .B => .C
  | g => g

def label : Grade → String
  | .A => "A"
  | .B => "B"
  | .C => "C"
  | .D => "D"
  | .F => "F"

end Grade

end Drydock
