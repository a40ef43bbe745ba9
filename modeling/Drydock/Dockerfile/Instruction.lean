import Drydock.Text.Basic

/-! Instructions of a build file: a keyword in capitals with its arguments.
Arguments are plain text, a list of words, or assignments in the order they were
written. Rules that look for a pattern see any of them through one text,
`Arguments.flat`. -/
namespace Drydock

def keywords : List Text :=
  ["ADD", "ARG", "CMD", "COPY", "ENTRYPOINT", "ENV", "EXPOSE", "FROM", "HEALTHCHECK",
    "LABEL", "MAINTAINER", "ONBUILD", "RUN", "SHELL", "STOPSIGNAL", "USER", "VOLUME",
    "WORKDIR"].map String.toList

/-- Whether a word is a keyword, in letters of either case. -/
def isKeyword (word : Text) : Bool :=
  keywords.any (Text.sameLetters word)

/-- What an instruction is applied to. -/
inductive Arguments where
  /-- Plain text, such as a shell command or an image name. -/
  | text (value : Text)
  /-- The words of a command written as a list of strings. -/
  | list (items : List Text)
  /-- Assignments of values to names. -/
  | assignments (pairs : List (Text × Text))
  deriving DecidableEq, Repr

namespace Arguments

/-- An assignment as it is searched for patterns. -/
def assignment (pair : Text × Text) : Text :=
  pair.1 ++ '=' :: pair.2

/-- The arguments as one text, with single spaces between items. -/
def flat : Arguments → Text
  | .text value => value
  | .list items => Text.join [' '] items
  | .assignments pairs => Text.join [' '] (pairs.map assignment)

end Arguments

structure Instruction where
  /-- The keyword, in capitals. -/
  name : Text
  args : Arguments
  /-- The line on which the instruction begins, counted from one. -/
  line : Nat
  /-- The lines it was read from. -/
  source : Text
  deriving DecidableEq, Repr

namespace Instruction

/-- An instruction that was not read from a file. -/
def make (name : Text) (args : Arguments) (line : Nat) : Instruction :=
  { name := Text.upper name, args, line, source := [] }

def is (i : Instruction) (keyword : String) : Bool :=
  Text.sameLetters i.name keyword.toList

def value (i : Instruction) : Text :=
  i.args.flat

end Instruction

end Drydock
