import Drydock.Text.Blank
import Drydock.Text.Lines

/-! Diagnostics about the outer form of a build file. Checkers may report more
than matters; `blocking` keeps what makes a file unfit for any further check. -/
namespace Drydock

inductive DiagnosticKind where
  /-- No base image is named anywhere. -/
  | missingFrom
  /-- An instruction other than ARG comes before the first FROM. -/
  | instructionBeforeFrom
  /-- The first word of a line is no keyword. -/
  | invalidInstruction
  /-- The file ends where a line should go on. -/
  | emptyContinuation
  | deprecatedInstruction
  /-- A keyword is not written in capitals. -/
  | lowercaseInstruction
  deriving DecidableEq, Repr

/-- A remark of a checker. -/
structure Diagnostic where
  kind : DiagnosticKind
  /-- The line it concerns, counted from one and not bounded: like
  `LogicalLine.line` it is the same as a count in 32 bits for texts of fewer
  than `2 ^ 32` lines. -/
  line : Nat
  /-- Zero marks an error of structure; greater numbers are advice. -/
  priority : Nat
  message : String
  deriving DecidableEq, Repr

namespace Diagnostic

def structural : Nat := 0

def describe (d : Diagnostic) : String :=
  "line " ++ d.line.repr ++ ": " ++ d.message

/-- Whether a line begins with HEALTHCHECK, in letters of either case. -/
def beginsHealthcheck (line : Text) : Bool :=
  Text.sameLetters ((Text.trimStart line).take 11) "HEALTHCHECK".toList

/-- Whether a diagnostic forbids all further checks of a file with these lines.
A checker that does not know HEALTHCHECK is not believed when it calls one
invalid. -/
def blocks (lines : List Text) (d : Diagnostic) : Bool :=
  d.priority == structural &&
    match d.kind with
    | .missingFrom => true
    | .instructionBeforeFrom => true
    | .invalidInstruction => !beginsHealthcheck ((lines[d.line - 1]?).getD [])
    | _ => false

/-- The diagnostics that forbid all further checks of a file. -/
def blocking (diagnostics : List Diagnostic) (content : Text) : List Diagnostic :=
  diagnostics.filter (blocks (Text.lines content))

end Diagnostic

end Drydock
