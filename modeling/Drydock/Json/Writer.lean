import Drydock.Json.Basic
import Drydock.Text.Letter

/-! JSON text of a value: compact, without any blanks, or spread over lines with
two spaces for each level. A string is written with the fewest escapes that JSON
asks for. -/
namespace Drydock.Json

/-- How a character is written inside quotes. -/
def escape (c : Char) : Text :=
  if c = '"' then ['\\', '"']
  else if c = '\\' then ['\\', '\\']
  else if c.toNat < 0x20 then
    if c = '\x08' then ['\\', 'b']
    else if c = '\t' then ['\\', 't']
    else if c = '\n' then ['\\', 'n']
    else if c = '\x0C' then ['\\', 'f']
    else if c = '\r' then ['\\', 'r']
    else ['\\', 'u', '0', '0', Text.hexDigit (c.toNat / 16), Text.hexDigit (c.toNat % 16)]
  else [c]

def quote (s : String) : Text :=
  '"' :: s.toList.flatMap escape ++ ['"']

/-- The text of a value that is neither an array nor an object. -/
def scalar : Json → Text
  | .null => "null".toList
  | .bool true => "true".toList
  | .bool false => "false".toList
  | .int (.ofNat n) => n.repr.toList
  | .int (.negSucc n) => '-' :: (n + 1).repr.toList
  | .numeral literal => literal.toList
  | .str s => quote s
  | .unpaired => "null".toList
  | .arr _ => []
  | .obj _ => []

mutual

/-- The text of a value without blanks. -/
def compact : Json → Text
  | .arr items => '[' :: compactItems items ++ [']']
  | .obj members => '\x7b' :: compactMembers members ++ ['\x7d']
  | j => scalar j

def compactItems : List Json → Text
  | [] => []
  | [j] => compact j
  | j :: k :: rest => compact j ++ ',' :: compactItems (k :: rest)

def compactMembers : List (String × Json) → Text
  | [] => []
  | [(name, j)] => quote name ++ ':' :: compact j
  | (name, j) :: m :: rest => quote name ++ ':' :: compact j ++ ',' :: compactMembers (m :: rest)

end

/-- The line feed and the spaces that begin a line at a given level. -/
def newLine (level : Nat) : Text :=
  '\n' :: List.replicate (2 * level) ' '

mutual

/-- The text of a value with each item and member on a line of its own. -/
def pretty (level : Nat) : Json → Text
  | .arr [] => ['[', ']']
  | .arr (j :: rest) =>
    '[' :: newLine (level + 1) ++ prettyItems (level + 1) (j :: rest) ++ newLine level ++ [']']
  | .obj [] => ['\x7b', '\x7d']
  | .obj (m :: rest) =>
    '\x7b' :: newLine (level + 1) ++ prettyMembers (level + 1) (m :: rest) ++ newLine level ++
      ['\x7d']
  | j => scalar j

def prettyItems (level : Nat) : List Json → Text
  | [] => []
  | [j] => pretty level j
  | j :: k :: rest => pretty level j ++ ',' :: newLine level ++ prettyItems level (k :: rest)

def prettyMembers (level : Nat) : List (String × Json) → Text
  | [] => []
  | [(name, j)] => quote name ++ ':' :: ' ' :: pretty level j
  | (name, j) :: m :: rest =>
    quote name ++ ':' :: ' ' :: pretty level j ++ ',' :: newLine level ++
      prettyMembers level (m :: rest)

end

end Drydock.Json
