import Drydock.Text.Basic

/-! Text without what would steer a terminal: escape sequences, and control
characters other than white space. An escape character begins a sequence, whose
next character tells how it ends. White space inside a sequence that is still
short of its end counts as text, and so does all that follows it up to the next
control character, where the sequence goes on. -/
namespace Drydock.ControlSequence

/-- What the characters so far have begun. -/
inductive State where
  /-- No sequence. -/
  | ground
  /-- A sequence, of which only the escape character has come. -/
  | escape
  /-- A sequence of an escape character and characters from space to `/`. -/
  | intermediate
  /-- A control sequence, which a bracket opens and a character from `@` on
  ends. -/
  | control
  /-- A command to the operating system, which a bell or an escape character
  ends. -/
  | command
  /-- A string for a device, of which nothing has come. -/
  | device
  /-- A string for a device, up to its parameters. -/
  | parameters
  /-- A string for a device, up to the characters after its parameters. -/
  | qualifiers
  /-- The body of a string, which an escape character ends. -/
  | body
  deriving DecidableEq, Repr

def isWithin (first last c : Char) : Bool :=
  first ≤ c && c ≤ last

/-- White space that is kept among control characters. -/
def isLayout (c : Char) : Bool :=
  c == '\t' || c == '\n' || c == '\x0C' || c == '\r'

/-- Whether a character is text where no sequence is open. -/
def isPlain (c : Char) : Bool :=
  isLayout c || (' ' ≤ c && c != '\x7F')

/-- Whether the string terminator of eight bits, 0x9C, is among the bytes of a
character. -/
def holdsTerminator (c : Char) : Bool :=
  (String.singleton c).toUTF8.toList.contains 0x9C

/-- What a character that is left out makes of the state. -/
def State.next (state : State) (c : Char) : State :=
  if c == '\x1B' then .escape
  else if c == '\x18' || c == '\x1A' then .ground
  else
    match state with
    | .ground => .ground
    | .escape =>
      if isWithin ' ' '/' c then .intermediate
      else if c == '[' then .control
      else if c == ']' then .command
      else if c == 'P' then .device
      else if c == 'X' || c == '^' || c == '_' then .body
      else if isWithin '0' '~' c then .ground
      else .escape
    | .intermediate => if isWithin '0' '~' c then .ground else .intermediate
    | .control => if isWithin '@' '~' c then .ground else .control
    | .command => if c == '\x07' then .ground else .command
    | .device =>
      if isWithin ' ' '/' c then .qualifiers
      else if isWithin '0' '?' c then .parameters
      else if isWithin '@' '~' c then .body
      else .device
    | .parameters =>
      if isWithin ' ' '/' c then .qualifiers
      else if isWithin '<' '~' c then .body
      else .parameters
    | .qualifiers => if isWithin '0' '~' c then .body else .qualifiers
    | .body => if holdsTerminator c then .ground else .body

/-- The state of reading a text. -/
structure Reading where
  state : State
  /-- Whether the character before was kept. -/
  inText : Bool
  deriving DecidableEq, Repr

namespace Reading

def keeps (r : Reading) (c : Char) : Bool :=
  if r.inText then isPlain c
  else
    match r.state with
    | .ground => isPlain c
    | .escape => isLayout c
    | .intermediate => isLayout c
    | .control => isLayout c
    | _ => false

/-- Take in a character. One beyond ASCII, if it is kept, ends any sequence. -/
def next (r : Reading) (c : Char) : Reading :=
  if r.keeps c then { state := if c ≤ '\x7F' then r.state else .ground, inText := true }
  else { state := r.state.next c, inText := false }

end Reading

/-- The text that is kept, from a given state on. -/
def plainFrom (r : Reading) : Text → Text
  | [] => []
  | c :: rest => if r.keeps c then c :: plainFrom (r.next c) rest else plainFrom (r.next c) rest

/-- The text without what would steer a terminal. -/
def plain (s : Text) : Text :=
  plainFrom { state := .ground, inText := true } s

end Drydock.ControlSequence
