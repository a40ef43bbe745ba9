import Drydock.Linter
import Drydock.Time.Instant

/-! What a run needs of the system around it. A run reads files, the standard
input, the clock and the output of the linter, and writes nothing but its
answer, so these few questions are all that it asks. -/
namespace Drydock

inductive FileError where
  | notFound
  | isDirectory
  | notADirectory
  | nameTooLong
  /-- The path holds the character that ends paths inside the system. -/
  | nulInPath
  /-- The bytes are not text. -/
  | notText
  /-- Another reason, as the system words it. -/
  | other (message : String)
  deriving DecidableEq, Repr

def FileError.message : FileError → String
  | .notFound => "No such file or directory (os error 2)"
  | .isDirectory => "Is a directory (os error 21)"
  | .notADirectory => "Not a directory (os error 20)"
  | .nameTooLong => "File name too long (os error 36)"
  | .nulInPath => "file name contained an unexpected NUL byte"
  | .notText => "stream did not contain valid UTF-8"
  | .other message => message

/-- The system around a run. -/
structure Host (m : Type → Type) where
  /-- The bytes of a file. -/
  readFile : Text → m (Except FileError (List UInt8))
  /-- Whether there is a file or a directory. -/
  isPresent : Text → m Bool
  /-- The bytes of the standard input. -/
  readInput : m (List UInt8)
  /-- The user's directory. -/
  home? : m (Option Text)
  /-- Run a program with arguments and an input. -/
  launch : String → List String → List UInt8 → m (Except Linter.LaunchError Linter.Outcome)
  /-- Whether the standard output goes to a terminal. -/
  isTerminal : m Bool
  /-- The time. -/
  now : m Instant

end Drydock
