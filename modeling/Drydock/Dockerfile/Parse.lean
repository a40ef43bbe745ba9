import Drydock.Dockerfile.Assignments
import Drydock.Dockerfile.ExecForm
import Drydock.Dockerfile.Instruction
import Drydock.Dockerfile.LogicalLine

/-! Reading a build file as a list of instructions, one from each logical line
that is neither empty nor a comment. The first line that cannot be read ends the
reading. Bodies of here-documents are not understood: their lines count as
instructions. -/
namespace Drydock

/-- Why a logical line is no instruction. -/
inductive ParseCause where
  /-- The line does not begin with a word of letters. -/
  | unexpectedToken (token : Text)
  | unknownInstruction (keyword : Text)
  | missingArguments (name : Text)
  deriving DecidableEq, Repr

namespace ParseCause

def message : ParseCause → String
  | .unexpectedToken token => "Unexpected token '" ++ String.ofList token ++ "'"
  | .unknownInstruction keyword => "Unknown instruction: " ++ String.ofList keyword
  | .missingArguments name => String.ofList name ++ " requires at least one argument"

/-- The column at fault, known where the first word is. -/
def column? : ParseCause → Option Nat
  | .unexpectedToken _ => some 1
  | .unknownInstruction _ => some 1
  | .missingArguments _ => none

end ParseCause

structure ParseError where
  cause : ParseCause
  line : Nat
  deriving DecidableEq, Repr

namespace ParseError

/-- The place of the error and its cause. -/
def message (e : ParseError) : String :=
  match e.cause.column? with
  | some column =>
    "line " ++ e.line.repr ++ ":" ++ column.repr ++ ": " ++ e.cause.message
  | none => "line " ++ e.line.repr ++ ": " ++ e.cause.message

end ParseError

/-- The arguments of a command: the items of a list of strings, or else the
trimmed text. -/
def Arguments.ofCommand (s : Text) : Arguments :=
  match ExecForm.items? s with
  | some items => .list items
  | none => .text (Text.trim s)

namespace Instruction

/-- The word that begins a line and the trimmed text after it. The word is made
of the letters `A` to `Z` in either case and a blank or the end has to follow
it. -/
def keyword? (content : Text) : Option (Text × Text) :=
  let word := content.takeWhile Char.isAlpha
  let rest := content.dropWhile Char.isAlpha
  if word.isEmpty || !rest.head?.all Text.isBlank then none
  else some (word, Text.trim rest)

def mayStandAlone (name : Text) : Bool :=
  (["CMD", "ENTRYPOINT", "RUN", "HEALTHCHECK"].map String.toList).contains name

def takesAssignments (name rest : Text) : Bool :=
  name == "ENV".toList || name == "LABEL".toList ||
    (name == "ARG".toList && rest.contains '=')

/-- The keywords whose arguments may be written as a list of strings. -/
def takesExecForm (name : Text) : Bool :=
  (["CMD", "ENTRYPOINT", "RUN", "SHELL", "VOLUME"].map String.toList).contains name

/-- The arguments of an instruction, read from the trimmed text after its
keyword. -/
def argumentsOf (name rest : Text) : Arguments :=
  if takesAssignments name rest then .assignments (Assignments.read rest)
  else if takesExecForm name then .ofCommand rest
  else .text rest

def ofLine (l : LogicalLine) : Except ParseError Instruction :=
  match keyword? l.content with
  | none =>
    .error ⟨.unexpectedToken ((Text.words l.content).head?.getD l.content), l.line⟩
  | some (word, rest) =>
    if !isKeyword word then .error ⟨.unknownInstruction word, l.line⟩
    else
      let name := Text.upper word
      if rest.isEmpty && !mayStandAlone name then .error ⟨.missingArguments name, l.line⟩
      else .ok { name, args := argumentsOf name rest, line := l.line, source := l.source }

end Instruction

/-- Read instructions from logical lines, passing over those that hold none. -/
def instructionsOf : List LogicalLine → Except ParseError (List Instruction)
  | [] => .ok []
  | l :: rest =>
    if l.isIdle then instructionsOf rest
    else
      match Instruction.ofLine l with
      | .error e => .error e
      | .ok i => (instructionsOf rest).map (i :: ·)

def parse (text : Text) : Except ParseError (List Instruction) :=
  instructionsOf (LogicalLine.ofText text)

end Drydock
