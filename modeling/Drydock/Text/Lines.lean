import Drydock.Text.Basic

/-! Lines of a text. A line feed ends a line, a carriage return right before it
belongs to the line end, and a text that ends with a line feed has no further,
empty line. -/
namespace Drydock.Text

/-- The lines of a text, without their line ends. -/
def lines : Text → List Text
  | [] => []
  | '\n' :: cs => [] :: lines cs
  | '\r' :: '\n' :: cs => [] :: lines cs
  | c :: cs =>
    match lines cs with
    | [] => [[c]]
    | line :: rest => (c :: line) :: rest

def afterFeeds : Text → List Text
  | [] => []
  | c :: cs => if c = '\n' then cs :: afterFeeds cs else afterFeeds cs

/-- The endings of a text that begin a line: the text itself, and what follows
each line feed. -/
def lineStarts (s : Text) : List Text :=
  s :: afterFeeds s

/-- Whether `found` holds of an ending that is reached without passing a line
feed. -/
def anyInLine (found : Text → Bool) : Text → Bool
  | [] => found []
  | c :: cs => found (c :: cs) || (c != '\n' && anyInLine found cs)

end Drydock.Text
