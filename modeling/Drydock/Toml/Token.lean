import Drydock.Text.Letter

/-! The tokens of a TOML document: blanks, line ends, comments, strings and
keys. Each reader takes what it can from the front of the text and gives the
rest.

A text can be at fault in two ways, and the place of a fault is given by the
text that begins there. Where the structure is at fault, reading stops. A token
whose end is known but whose content is at fault does not stop it, so that a
fault of structure comes out before one of content that stands earlier. -/
namespace Drydock.Toml

/-- What a token stands for, or the place at which its content is at fault. -/
abbrev Content (α : Type) := Except Text α

/-- What a reader took and the rest, or the place at which the structure is at
fault. -/
abbrev Read (α : Type) := Except Text (α × Text)

def isSpace (c : Char) : Bool :=
  c == ' ' || c == '\t'

def skipSpaces (s : Text) : Text :=
  s.dropWhile isSpace

/-- The characters that may stand in a comment or, quotes and backslashes apart,
in a string. -/
def isPrintable (c : Char) : Bool :=
  c == '\t' || (0x20 ≤ c.toNat && c.toNat != 0x7F)

def afterLineEnd? : Text → Option Text
  | '\n' :: rest => some rest
  | '\r' :: '\n' :: rest => some rest
  | _ => none

def skipComment : Text → Text
  | '#' :: rest => rest.dropWhile isPrintable
  | s => s

/-- What follows the end of a statement: blanks, a comment, and a line end or
the end of the document. -/
def afterStatement (s : Text) : Except Text Text :=
  match skipComment (skipSpaces s) with
  | [] => .ok []
  | rest =>
    match afterLineEnd? rest with
    | some next => .ok next
    | none => .error rest

/-- Skip blanks, comments and line ends inside brackets. `inComment` tells
whether the text begins inside a comment. -/
def skipFiller (inComment : Bool) : Text → Text
  | [] => []
  | '\r' :: '\n' :: rest => skipFiller false rest
  | c :: rest =>
    if c == '\n' then skipFiller false rest
    else if inComment then
      if isPrintable c then skipFiller true rest else c :: rest
    else if isSpace c then skipFiller false rest
    else if c == '#' then skipFiller true rest
    else c :: rest

/-- The character with a given number, if there is one. -/
def scalar? (digits : Text) : Option Char :=
  match Text.hexNumber? digits with
  | some n => if n.isValidChar then some (Char.ofNat n) else none
  | none => none

def shortEscape? : Char → Option Char
  | 'b' => some '\x08'
  | 't' => some '\t'
  | 'n' => some '\n'
  | 'f' => some '\x0C'
  | 'r' => some '\r'
  | 'e' => some '\x1b'
  | '"' => some '"'
  | '\\' => some '\\'
  | _ => none

/-- Put a character in front of a text that was read. -/
def prepend (c : Char) : Except Text (Text × Text) → Except Text (Text × Text) :=
  Except.map (fun (t, rest) => (c :: t, rest))

/-- Read on inside double quotes on one line. -/
def inBasic (s : Text) : Except Text (Text × Text) :=
  match s with
  | [] => .error s
  | '"' :: rest => .ok ([], rest)
  | '\\' :: 'x' :: a :: b :: rest =>
    match scalar? [a, b] with
    | some c => prepend c (inBasic rest)
    | none => .error s
  | '\\' :: 'u' :: a :: b :: c :: d :: rest =>
    match scalar? [a, b, c, d] with
    | some c => prepend c (inBasic rest)
    | none => .error s
  | '\\' :: 'U' :: a :: b :: c :: d :: e :: f :: g :: h :: rest =>
    match scalar? [a, b, c, d, e, f, g, h] with
    | some c => prepend c (inBasic rest)
    | none => .error s
  | '\\' :: c :: rest =>
    match shortEscape? c with
    | some c => prepend c (inBasic rest)
    | none => .error s
  | c :: rest => if c != '\\' && isPrintable c then prepend c (inBasic rest) else .error s

/-- Where reading stands between the lines of a string. -/
inductive Folding where
  /-- Characters count. -/
  | none
  /-- After a backslash, before the line end that it takes away. -/
  | toLineEnd
  /-- After that line end, before the first character that counts. -/
  | toText
  deriving DecidableEq

/-- The end of a string in triple quotes: how many further quotes stand at the
end of its text, at most two, and the rest after the closing ones. -/
def closing? (quote : Char) : Text → Option (Text × Text)
  | a :: b :: c :: rest =>
    if a == quote && b == quote && c == quote then
      match rest with
      | d :: e :: rest' =>
        if d == quote && e == quote then some ([quote, quote], rest')
        else if d == quote then some ([quote], e :: rest') else some ([], d :: e :: rest')
      | [d] => if d == quote then some ([quote], []) else some ([], [d])
      | [] => some ([], [])
    else none
  | _ => none

/-- Read on inside triple double quotes. A backslash before a line end takes
away the line end and the white space after it. -/
def inMultiline (folding : Folding) (s : Text) : Except Text (Text × Text) :=
  match s with
  | [] => .error s
  | '\\' :: 'x' :: a :: b :: rest =>
    if folding == .toLineEnd then .error s
    else
      match scalar? [a, b] with
      | some c => prepend c (inMultiline .none rest)
      | none => .error s
  | '\\' :: 'u' :: a :: b :: c :: d :: rest =>
    if folding == .toLineEnd then .error s
    else
      match scalar? [a, b, c, d] with
      | some c => prepend c (inMultiline .none rest)
      | none => .error s
  | '\\' :: 'U' :: a :: b :: c :: d :: e :: f :: g :: h :: rest =>
    if folding == .toLineEnd then .error s
    else
      match scalar? [a, b, c, d, e, f, g, h] with
      | some c => prepend c (inMultiline .none rest)
      | none => .error s
  | '\r' :: '\n' :: rest =>
    if folding == .none then prepend '\r' (prepend '\n' (inMultiline .none rest))
    else inMultiline .toText rest
  | '\n' :: rest =>
    if folding == .none then prepend '\n' (inMultiline .none rest)
    else inMultiline .toText rest
  | '\\' :: c :: rest =>
    if folding == .toLineEnd then .error s
    else if isSpace c then inMultiline .toLineEnd rest
    else if c == '\n' then inMultiline .toText rest
    else if c == '\r' then
      match rest with
      | '\n' :: rest' => inMultiline .toText rest'
      | _ => .error s
    else
      match shortEscape? c with
      | some c => prepend c (inMultiline .none rest)
      | none => .error s
  | c :: rest =>
    if folding != .none && isSpace c then inMultiline folding rest
    else if folding == .toLineEnd then .error s
    else
      match closing? '"' s with
      | some done => .ok done
      | none =>
        if c != '\\' && isPrintable c then prepend c (inMultiline .none rest) else .error s

/-- Read on inside single quotes on one line. -/
def inLiteral (s : Text) : Except Text (Text × Text) :=
  match s with
  | [] => .error s
  | c :: rest =>
    if c == '\x27' then .ok ([], rest)
    else if isPrintable c then prepend c (inLiteral rest) else .error s

/-- Read on inside triple single quotes. -/
def inMultilineLiteral (s : Text) : Except Text (Text × Text) :=
  match s with
  | [] => .error s
  | '\r' :: '\n' :: rest => prepend '\r' (prepend '\n' (inMultilineLiteral rest))
  | c :: rest =>
    match closing? '\x27' s with
    | some done => .ok done
    | none =>
      if c == '\n' || isPrintable c then prepend c (inMultilineLiteral rest) else .error s

def dropLineEnd (s : Text) : Text :=
  (afterLineEnd? s).getD s

/-- What follows a string in double quotes on one line, from a place inside it.
A line end ends it too. -/
def afterBasic : Text → Text
  | [] => []
  | '\\' :: '\\' :: rest => afterBasic rest
  | '\\' :: '"' :: rest => afterBasic rest
  | '"' :: rest => rest
  | '\n' :: rest => '\n' :: rest
  | _ :: rest => afterBasic rest

/-- What follows a string in single quotes on one line, from a place inside it.
A line end ends it too. -/
def afterLiteral : Text → Text
  | [] => []
  | '\x27' :: rest => rest
  | '\n' :: rest => '\n' :: rest
  | _ :: rest => afterLiteral rest

/-- What follows a string in triple double quotes, from a place inside it, if it
is closed. -/
def afterMultiline? (s : Text) : Option Text :=
  match s with
  | [] => none
  | '\\' :: '\\' :: rest => afterMultiline? rest
  | '\\' :: '"' :: rest => afterMultiline? rest
  | _ :: rest =>
    match closing? '"' s with
    | some (_, after) => some after
    | none => afterMultiline? rest

/-- What follows a string in triple single quotes, from a place inside it, if it
is closed. -/
def afterMultilineLiteral? (s : Text) : Option Text :=
  match s with
  | [] => none
  | _ :: rest =>
    match closing? '\x27' s with
    | some (_, after) => some after
    | none => afterMultilineLiteral? rest

/-- A string on one line whose end is known in any case. -/
def ended (after : Text → Text) : Except Text (Text × Text) → Content Text × Text
  | .ok (t, rest) => (.ok t, rest)
  | .error place => (.error place, after place)

/-- A string over several lines. One that is not closed is at fault at the end
of the text. -/
def closed (after? : Text → Option Text) : Except Text (Text × Text) → Content Text × Text
  | .ok (t, rest) => (.ok t, rest)
  | .error place =>
    match after? place with
    | some rest => (.error place, rest)
    | none => (.error [], [])

/-- A string of any of the four forms. -/
def string (s : Text) : Read (Content Text) :=
  match s with
  | '"' :: '"' :: '"' :: rest =>
    .ok (closed afterMultiline? (inMultiline .none (dropLineEnd rest)))
  | '"' :: rest => .ok (ended afterBasic (inBasic rest))
  | '\x27' :: '\x27' :: '\x27' :: rest =>
    .ok (closed afterMultilineLiteral? (inMultilineLiteral (dropLineEnd rest)))
  | '\x27' :: rest => .ok (ended afterLiteral (inLiteral rest))
  | _ => .error s

def isWordChar (c : Char) : Bool :=
  !"=,[]\x7b\x7d# \t\r\n".toList.contains c

/-- The characters of a key without quotes. -/
def isBareKey (c : Char) : Bool :=
  c.isAlphanum || c == '_' || c == '-'

/-- A word as a key, and what follows it. -/
def bareKey (s : Text) : Read (Content Text) :=
  let word := s.takeWhile (fun c => isWordChar c && c != '.')
  let rest := s.dropWhile (fun c => isWordChar c && c != '.')
  if word.isEmpty then .error s
  else if word.all isBareKey then .ok (.ok word, rest)
  else .ok (.error (s.dropWhile isBareKey), rest)

def simpleKey (s : Text) : Read (Content Text) :=
  match s with
  | '"' :: rest => .ok (ended afterBasic (inBasic rest))
  | '\x27' :: rest => .ok (ended afterLiteral (inLiteral rest))
  | _ => bareKey s

/-- One item in front of others. The first fault counts. -/
def Content.cons {α : Type} (first : Content α) (rest : Content (List α)) :
    Content (List α) := do
  return (← first) :: (← rest)

/-- The parts of a key that dots divide, at most `steps` of them. -/
def keyParts : Nat → Text → Read (Content (List String))
  | 0, s => .error s
  | steps + 1, s =>
    match simpleKey (skipSpaces s) with
    | .error place => .error place
    | .ok (part, rest) =>
      let part := part.map String.ofList
      match skipSpaces rest with
      | '.' :: r => (keyParts steps r).map (fun (parts, r) => (Content.cons part parts, r))
      | r => .ok (part.map (fun k => [k]), r)

/-- The most parts that a key may have, and the most brackets and braces that
may stand within each other. -/
def maxDepth : Nat := 80

/-- A key and the blanks around it. -/
def key (s : Text) : Read (Content (List String)) :=
  keyParts maxDepth s

end Drydock.Toml
