import Drydock.Dockerfile.Diagnostic
import Drydock.Dockerfile.Heredoc
import Drydock.Dockerfile.Instruction

/-! A first check of a build file, line by line. It joins continued lines, looks
at the first word of each, and passes over the bodies of here-documents, which
parsing cannot. A comment ends a continuation here like any other line. -/
namespace Drydock.Precheck

/-- What is known between two lines. -/
structure State where
  /-- Whether a FROM has been seen. -/
  fromSeen : Bool
  /-- The delimiters of here-documents that are still open, the next to be met
  first. -/
  delimiters : List Text
  /-- A continued line: its number and what it holds so far. -/
  pending? : Option (Nat × Text)
  deriving DecidableEq, Repr

def State.initial : State :=
  { fromSeen := false, delimiters := [], pending? := none }

def opensHeredoc (name : Text) : Bool :=
  (["RUN", "COPY", "ADD"].map String.toList).contains name

/-- The remarks on a keyword in capitals, given whether a FROM came before. -/
def remarks (line : Nat) (fromSeen : Bool) (word name : Text) : List Diagnostic :=
  (if word = name then [] else
    [⟨.lowercaseInstruction, line, 2,
      "Instructions should be uppercase: " ++ String.ofList word⟩]) ++
  (if fromSeen || name = "FROM".toList || name = "ARG".toList then [] else
    [⟨.instructionBeforeFrom, line, Diagnostic.structural,
      String.ofList name ++ " instruction before the first FROM"⟩]) ++
  (if name = "MAINTAINER".toList then
    [⟨.deprecatedInstruction, line, 2, "MAINTAINER is deprecated"⟩] else [])

/-- Judge a whole line that begins at a given number. -/
def judge (line : Nat) (content : Text) (state : State) : State × List Diagnostic :=
  let word := (Text.words content).head?.getD []
  let state := { state with pending? := none }
  if !isKeyword word then
    (state, [⟨.invalidInstruction, line, Diagnostic.structural,
      "Invalid instruction: " ++ String.ofList word⟩])
  else
    let name := Text.upper word
    ({ state with
        fromSeen := state.fromSeen || name = "FROM".toList
        delimiters := state.delimiters ++
          if opensHeredoc name then Heredoc.delimiters content else [] },
      remarks line state.fromSeen word name)

/-- Go on with a line that holds `content` before this physical line. -/
def extend (line : Nat) (content physical : Text) (state : State) : State × List Diagnostic :=
  match Text.dropLast? '\\' (Text.trimEnd physical) with
  | some part => ({ state with pending? := some (line, content ++ part ++ [' ']) }, [])
  | none => judge line (content ++ Text.trimEnd physical) state

/-- Take in the physical line with number `n`. -/
def step (n : Nat) (physical : Text) (state : State) : State × List Diagnostic :=
  match state.pending?, state.delimiters with
  | some (line, content), _ => extend line content physical state
  | none, delimiter :: rest =>
    (if Text.trim physical = delimiter then { state with delimiters := rest } else state, [])
  | none, [] =>
    let trimmed := Text.trim physical
    if trimmed.isEmpty || trimmed.head? = some '#' then (state, [])
    else extend n [] physical state

def missingFrom (state : State) : List Diagnostic :=
  if state.fromSeen then []
  else [⟨.missingFrom, 1, Diagnostic.structural, "Missing FROM instruction"⟩]

/-- The remarks at the end of the file. -/
def finish (state : State) : List Diagnostic :=
  match state.pending? with
  | some (line, content) =>
    let (after, found) := judge line content state
    ⟨.emptyContinuation, line, 1, "Line continuation at end of file"⟩ :: found ++
      missingFrom after
  | none => missingFrom state

def checkFrom (n : Nat) (state : State) : List Text → List Diagnostic
  | [] => finish state
  | physical :: rest =>
    let (after, found) := step n physical state
    found ++ checkFrom (n + 1) after rest

/-- All remarks on a build file, in the order of its lines. -/
def check (content : Text) : List Diagnostic :=
  checkFrom 1 .initial (Text.lines content)

end Drydock.Precheck
