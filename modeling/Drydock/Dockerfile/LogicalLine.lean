import Drydock.Text.Blank
import Drydock.Text.Lines

/-! Logical lines: physical lines joined across a trailing backslash. A line
whose first character that is not blank is `#` is a comment. It stands alone
where a logical line would begin, and inside a logical line it is passed over,
so that it neither adds to the content nor ends the continuation. -/
namespace Drydock

/-- A line as an instruction is read from it. -/
structure LogicalLine where
  /-- The number of its first physical line, counted from one. It is not
  bounded: a count in 32 bits is the same for texts of fewer than `2 ^ 32`
  lines, and for longer ones nothing that is proved of line numbers carries over
  to it. -/
  line : Nat
  /-- The joined text without the backslashes that continue it. -/
  content : Text
  /-- All physical lines it covers. -/
  source : Text
  deriving DecidableEq, Repr

namespace LogicalLine

def isComment (physical : Text) : Bool :=
  (Text.trimStart physical).head? = some '#'

/-- What a physical line contributes when it is continued on the next one. -/
def continued? (physical : Text) : Option Text :=
  (Text.dropLast? '\\' (Text.trimEnd physical)).map (· ++ [' '])

/-- A logical line to which physical lines are still added. -/
structure Draft where
  line : Nat
  content : Text
  source : Text
  deriving DecidableEq, Repr

namespace Draft

def empty (line : Nat) : Draft :=
  { line, content := [], source := [] }

/-- Take in a physical line that contributes `part` to the content. -/
def add (draft : Draft) (physical part : Text) : Draft :=
  { draft with
    content := draft.content ++ part
    source := draft.source ++ physical ++ ['\n'] }

def finish (draft : Draft) : LogicalLine :=
  { line := draft.line
    content := Text.trim draft.content
    source := Text.trimEnd draft.source }

end Draft

/-- Join physical lines, the first of which has number `n`. `draft?` is the
logical line that the lines before have left open. -/
def joinFrom (n : Nat) (draft? : Option Draft) : List Text → List LogicalLine
  | [] => (draft?.map Draft.finish).toList
  | physical :: rest =>
    let draft := draft?.getD (Draft.empty n)
    if isComment physical then
      if draft?.isSome then
        joinFrom (n + 1) (some (draft.add physical [])) rest
      else
        (draft.add physical (Text.trimEnd physical)).finish :: joinFrom (n + 1) none rest
    else
      match continued? physical with
      | some part => joinFrom (n + 1) (some (draft.add physical part)) rest
      | none =>
        (draft.add physical (Text.trimEnd physical)).finish :: joinFrom (n + 1) none rest

def ofText (text : Text) : List LogicalLine :=
  joinFrom 1 none (Text.lines text)

/-- Whether the line holds neither an instruction nor anything that could be
one. -/
def isIdle (l : LogicalLine) : Bool :=
  l.content.isEmpty || l.content.head? = some '#'

end LogicalLine

end Drydock
