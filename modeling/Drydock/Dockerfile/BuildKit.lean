import Drydock.Dockerfile.Heredoc
import Drydock.Text.Letter
import Drydock.Text.Lines
import Drydock.Text.Word

/-! Features of the extended build syntax, found by looking at the text alone,
since a file that uses them need not parse. Keywords and options are found in
letters of either case. -/
namespace Drydock

structure Features where
  /-- The parser that a syntax directive asks for. -/
  directive : Option String
  heredocs : Bool
  mounts : Bool
  secretMounts : Bool
  deriving DecidableEq, Repr

namespace BuildKit

/-- The parser that a comment line asks for when it is a syntax directive. -/
def directiveOf? (comment : Text) : Option Text :=
  match Text.trimStart comment with
  | '#' :: rest =>
    match Text.afterFolded? "syntax".toList (Text.trimStart rest) with
    | some after =>
      match Text.trimStart after with
      | '=' :: operand =>
        let value := Text.firstRun (Text.trimStart operand)
        if value.isEmpty then none else some value
      | _ => none
    | none => none
  | _ => none

/-- The first syntax directive among the comments before the first
instruction. -/
def directiveIn? : List Text → Option Text
  | [] => none
  | line :: rest =>
    let trimmed := Text.trim line
    if trimmed.isEmpty then directiveIn? rest
    else if trimmed.head? != some '#' then none
    else
      match directiveOf? trimmed with
      | some value => some value
      | none => directiveIn? rest

/-- What follows a keyword that is the first thing on a line, read from where
the line begins. -/
def afterKeyword? (keyword : String) (lineStart : Text) : Option Text :=
  Text.afterFolded? keyword.toList (Text.trimStart lineStart)

/-- Whether a here-document operator with a name begins the text. Its name may
begin with any character that folds to a letter. -/
def beginsHeredoc (s : Text) : Bool :=
  match Heredoc.operand? s with
  | some (c :: _) => Text.isFoldedLetter c || c == '_'
  | _ => false

/-- Whether an instruction of the text opens a here-document on its first
line. -/
def hasHeredoc (content : Text) : Bool :=
  (Text.lineStarts content).any fun start =>
    ["run", "copy", "add"].any fun keyword =>
      match afterKeyword? keyword start with
      | some (c :: rest) => Text.isBlank c && Text.anyInLine beginsHeredoc rest
      | _ => false

/-- Whether `found` holds somewhere on the first line of the arguments of a
RUN. -/
def anyInRun (found : Text → Bool) (content : Text) : Bool :=
  (Text.lineStarts content).any fun start =>
    match (afterKeyword? "run" start).bind Text.afterBlanks? with
    | some rest => Text.anyInLine found rest
    | none => false

def beginsMount (s : Text) : Bool :=
  match Text.afterFolded? "--mount".toList s with
  | some rest => Text.wordEnds rest
  | none => false

/-- Whether a secret mount begins the text: an option of which some field is
`type=secret`. -/
def beginsSecretMount (s : Text) : Bool :=
  match Text.afterFolded? "--mount=".toList s with
  | some rest =>
    (Text.afterFolded? "type=secret".toList rest).isSome ||
      (Text.afterFirstFolded? ",type=secret".toList (Text.firstRun rest)).isSome
  | none => false

def hasMount (content : Text) : Bool :=
  anyInRun beginsMount content

def hasSecretMount (content : Text) : Bool :=
  anyInRun beginsSecretMount content

def detect (content : Text) : Features :=
  { directive := (directiveIn? (Text.lines content)).map String.ofList
    heredocs := hasHeredoc content
    mounts := hasMount content
    secretMounts := hasSecretMount content }

def isSecretMountLine (line : Text) : Bool :=
  hasSecretMount line || Text.occursIn "--mount=type=secret".toList line

/-- What follows `--mount=` in a word that holds it. -/
def mountSpec? (word : Text) : Option Text :=
  match Text.afterFirstFolded? "--mount=".toList word with
  | some (c :: spec) => some (c :: spec)
  | _ => none

/-- The type that a field of a mount names. -/
def typeOf? (field : Text) : Option Text :=
  match Text.afterFolded? "type=".toList field with
  | some rest =>
    let name := rest.takeWhile Text.isFoldedLetter
    if name.isEmpty then none else some name
  | none => none

def mountType? (spec : Text) : Option Text :=
  (Text.splitAt ',' spec).findSome? typeOf?

/-- Whether a line mounts something that is not a secret. A mount without a type
binds a directory. -/
def hasPlainMount (line : Text) : Bool :=
  ((Text.words line).filterMap mountSpec?).any fun spec =>
    match mountType? spec with
    | some name => !Text.sameLetters name "secret".toList
    | none => true

end BuildKit

def Features.any (f : Features) : Bool :=
  f.directive.isSome || f.heredocs || f.mounts || f.secretMounts

end Drydock
