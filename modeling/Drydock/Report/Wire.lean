import Drydock.Json.Decode
import Drydock.Json.Reader
import Drydock.Json.Writer
import Drydock.Report.Basic
import Drydock.Time.Rfc3339

/-! Reports as JSON. Members are written in a fixed order and those without a
value are left out. Scores are below 2⁸, line numbers below 2³² and counts below
2⁶⁴. -/
namespace Drydock

namespace Severity

def wireName : Severity → String
  | .error => "ERROR"
  | .warning => "WARNING"
  | .info => "INFO"

def ofWireName? : String → Option Severity
  | "ERROR" => some .error
  | "WARNING" => some .warning
  | "INFO" => some .info
  | _ => none

end Severity

namespace Category

def wireName : Category → String
  | .security => "SECURITY"
  | .bestPractice => "BEST_PRACTICE"
  | .optimization => "OPTIMIZATION"

def ofWireName? : String → Option Category
  | "SECURITY" => some .security
  | "BEST_PRACTICE" => some .bestPractice
  | "OPTIMIZATION" => some .optimization
  | _ => none

end Category

namespace Origin

def wireName : Origin → String
  | .internal => "internal"
  | .external => "external"

def ofWireName? : String → Option Origin
  | "internal" => some .internal
  | "external" => some .external
  | _ => none

end Origin

namespace Evaluation

def wireName : Evaluation → String
  | .structured => "structured"
  | .heuristic => "heuristic"
  | .parseError => "parseerror"
  | .external => "external"

def ofWireName? : String → Option Evaluation
  | "structured" => some .structured
  | "heuristic" => some .heuristic
  | "parseerror" => some .parseError
  | "external" => some .external
  | _ => none

end Evaluation

namespace Grade

def ofWireName? : String → Option Grade
  | "A" => some .A
  | "B" => some .B
  | "C" => some .C
  | "D" => some .D
  | "F" => some .F
  | _ => none

end Grade

namespace Finding

/-- A member that is left out when there is no value. -/
def memberIfSome {α : Type} (name : String) (value : Option α) (encode : α → Json) :
    List (String × Json) :=
  match value with
  | some a => [(name, encode a)]
  | none => []

def toJson (f : Finding) : Json :=
  .obj
    ([("ruleId", .str f.rule), ("passed", .bool f.passed),
        ("severity", .str f.severity.wireName)] ++
      memberIfSome "category" f.category (fun c => .str c.wireName) ++
      [("message", .str f.message), ("suggestions", .arr (f.suggestions.map .str))] ++
      memberIfSome "details" f.details .str ++
      memberIfSome "line" f.line .nat ++
      [("source", .str f.origin.wireName)])

def fieldNames : List String :=
  ["ruleId", "passed", "severity", "category", "message", "suggestions", "details", "line",
    "source"]

def ofJson? (j : Json) : Option Finding := do
  let fields ← j.fields? fieldNames
  return {
    rule := ← fields.required? 0 Json.asString?
    passed := ← fields.required? 1 Json.asBool?
    severity := ← fields.required? 2 (Json.asWord? Severity.ofWireName?)
    category := ← fields.optional? 3 (Json.orNull? (Json.asWord? Category.ofWireName?))
    message := ← fields.required? 4 Json.asString?
    suggestions := ← fields.required? 5 (Json.asList? Json.asString?)
    details := ← fields.optional? 6 (Json.orNull? Json.asString?)
    line := ← fields.optional? 7 (Json.orNull? (Json.asNat? 32))
    origin := ← fields.defaulted? 8 .internal (Json.asWord? Origin.ofWireName?) }

end Finding

namespace Report

def toJson (r : Report) : Json :=
  .obj
    [("results", .arr (r.findings.map Finding.toJson)), ("score", .nat r.score),
      ("grade", .str r.grade.label), ("passedCount", .nat r.tally.passed),
      ("failedCount", .nat r.tally.failed), ("errorCount", .nat r.tally.errors),
      ("warningCount", .nat r.tally.warnings), ("infoCount", .nat r.tally.infos),
      ("timestamp", .str (String.ofList r.time.toText)),
      ("evaluation", .str r.evaluation.wireName)]

def fieldNames : List String :=
  ["results", "score", "grade", "passedCount", "failedCount", "errorCount", "warningCount",
    "infoCount", "timestamp", "evaluation"]

def asInstant? (j : Json) : Option Instant :=
  j.asString?.bind (fun s => Instant.ofText? s.toList)

def ofJson? (j : Json) : Option Report := do
  let fields ← j.fields? fieldNames
  let count := fun n => fields.required? n (Json.asNat? 64)
  return {
    findings := ← fields.required? 0 (Json.asList? Finding.ofJson?)
    score := ← fields.required? 1 (Json.asNat? 8)
    grade := ← fields.required? 2 (Json.asWord? Grade.ofWireName?)
    tally := {
      passed := ← count 3
      failed := ← count 4
      errors := ← count 5
      warnings := ← count 6
      infos := ← count 7 }
    time := ← fields.required? 8 asInstant?
    evaluation := ← fields.required? 9 (Json.asWord? Evaluation.ofWireName?) }

/-- The report as JSON text without blanks. -/
def encode (r : Report) : Text :=
  r.toJson.compact

def decode? (s : Text) : Option Report :=
  (Json.parse? s).bind ofJson?

end Report

end Drydock
