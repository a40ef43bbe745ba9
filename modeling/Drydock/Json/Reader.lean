import Drydock.Json.Basic
import Drydock.Text.Letter

/-! Reading JSON text. The grammar is strict: no comments, no trailing commas,
no leading zeros, no raw control characters in strings, and nothing but white
space after the value. -/
namespace Drydock.Json

def isSpace (c : Char) : Bool :=
  c == ' ' || c == '\n' || c == '\t' || c == '\r'

def skipSpace (s : Text) : Text :=
  s.dropWhile isSpace

/-- The code unit that four digits of base sixteen stand for. -/
def unit? (a b c d : Char) : Option Nat :=
  Text.hexNumber? [a, b, c, d]

/-- The character of an escape of one letter. -/
def shortEscape? : Char → Option Char
  | '"' => some '"'
  | '\\' => some '\\'
  | '/' => some '/'
  | 'b' => some '\x08'
  | 'f' => some '\x0C'
  | 'n' => some '\n'
  | 'r' => some '\r'
  | 't' => some '\t'
  | _ => none

def isHigh (u : Nat) : Bool :=
  0xD800 ≤ u && u < 0xDC00

def isLow (u : Nat) : Bool :=
  0xDC00 ≤ u && u < 0xE000

/-- The code units inside quotes and what follows the closing quote. A character
that is written as itself is one unit, also beyond U+FFFF. -/
def units? : Text → Option (List Nat × Text)
  | [] => none
  | '"' :: rest => some ([], rest)
  | '\\' :: 'u' :: a :: b :: c :: d :: rest =>
    match unit? a b c d with
    | none => none
    | some u => (units? rest).map (fun (us, r) => (u :: us, r))
  | '\\' :: c :: rest =>
    match shortEscape? c with
    | none => none
    | some c => (units? rest).map (fun (us, r) => (c.toNat :: us, r))
  | c :: rest =>
    if c.toNat < 0x20 || c == '\\' then none
    else (units? rest).map (fun (us, r) => (c.toNat :: us, r))

/-- The text that code units stand for, which exists when the halves of
surrogate pairs stand together. -/
def ofUnits? : List Nat → Option Text
  | [] => some []
  | [u] => if isHigh u || isLow u then none else some [Char.ofNat u]
  | u :: v :: rest =>
    if isHigh u then
      if isLow v then
        (ofUnits? rest).map (Char.ofNat (0x10000 + (u - 0xD800) * 0x400 + (v - 0xDC00)) :: ·)
      else none
    else if isLow u then none
    else (ofUnits? (v :: rest)).map (Char.ofNat u :: ·)

/-- A string after its opening quote: its text, if it has one, and what follows
the closing quote. -/
def inString? (s : Text) : Option (Option Text × Text) :=
  (units? s).map (fun (us, r) => (ofUnits? us, r))

/-- A run of digits that is not empty, and the rest. -/
def digits? (s : Text) : Option (Text × Text) :=
  match s.takeWhile Char.isDigit with
  | [] => none
  | ds => some (ds, s.dropWhile Char.isDigit)

/-- The whole part of a number: a zero alone, or digits that do not begin with
one. -/
def whole? : Text → Option (Text × Text)
  | '0' :: rest => some (['0'], rest)
  | s => digits? s

def fraction? : Text → Option (Text × Text)
  | '.' :: rest => (digits? rest).map (fun (ds, r) => ('.' :: ds, r))
  | s => some ([], s)

def exponentSign : Text → Text × Text
  | '+' :: rest => (['+'], rest)
  | '-' :: rest => (['-'], rest)
  | s => ([], s)

def exponent? : Text → Option (Text × Text)
  | c :: rest =>
    if c == 'e' || c == 'E' then
      let (sign, after) := exponentSign rest
      (digits? after).map (fun (ds, r) => (c :: sign ++ ds, r))
    else some ([], c :: rest)
  | [] => some ([], [])

def unsigned? (negative : Bool) (s : Text) : Option (Json × Text) := do
  let (whole, s) ← whole? s
  let (fraction, s) ← fraction? s
  let (exponent, s) ← exponent? s
  let n := Nat.ofDigitChars 10 whole 0
  let literal := (if negative then ['-'] else []) ++ whole ++ fraction ++ exponent
  if fraction.isEmpty && exponent.isEmpty && !(negative && n == 0) then
    return (.int (if negative then -(n : Int) else n), s)
  else return (.numeral (String.ofList literal), s)

/-- A number. Minus zero is not a plain integer. -/
def number? : Text → Option (Json × Text)
  | '-' :: rest => unsigned? true rest
  | s => unsigned? false s

/-- A string as a value. -/
def ofString : Option Text → Json
  | some s => .str (String.ofList s)
  | none => .unpaired

/-- The name of a member, if it stands for a text, and what follows the colon
after it. -/
def name? : Text → Option (Option Text × Text)
  | '"' :: rest =>
    match inString? rest with
    | some (name, r) =>
      match skipSpace r with
      | ':' :: r' => some (name, r')
      | _ => none
    | none => none
  | _ => none

/-- An object as a value. -/
def ofMembers (members : List (Option Text × Json)) : Json :=
  match members.mapM (fun (name, j) => name.map (fun n => (String.ofList n, j))) with
  | some members => .obj members
  | none => .unpaired

mutual

/-- A value and what follows it, with as many steps allowed as `steps` says. -/
def value? : Nat → Text → Option (Json × Text)
  | 0, _ => none
  | steps + 1, s =>
    match skipSpace s with
    | 'n' :: 'u' :: 'l' :: 'l' :: rest => some (.null, rest)
    | 't' :: 'r' :: 'u' :: 'e' :: rest => some (.bool true, rest)
    | 'f' :: 'a' :: 'l' :: 's' :: 'e' :: rest => some (.bool false, rest)
    | '"' :: rest => (inString? rest).map (fun (text, r) => (ofString text, r))
    | '[' :: rest =>
      match skipSpace rest with
      | ']' :: r => some (.arr [], r)
      | r => (items? steps r).map (fun (items, r) => (.arr items, r))
    | '\x7b' :: rest =>
      match skipSpace rest with
      | '\x7d' :: r => some (.obj [], r)
      | r => (members? steps r).map (fun (members, r) => (ofMembers members, r))
    | other => number? other

def items? : Nat → Text → Option (List Json × Text)
  | 0, _ => none
  | steps + 1, s =>
    match value? steps s with
    | none => none
    | some (j, r) =>
      match skipSpace r with
      | ']' :: r => some ([j], r)
      | ',' :: r => (items? steps r).map (fun (items, r) => (j :: items, r))
      | _ => none

def members? : Nat → Text → Option (List (Option Text × Json) × Text)
  | 0, _ => none
  | steps + 1, s =>
    match name? (skipSpace s) with
    | none => none
    | some (name, r) =>
      match value? steps r with
      | none => none
      | some (j, r) =>
        match skipSpace r with
        | '\x7d' :: r => some ([(name, j)], r)
        | ',' :: r => (members? steps r).map (fun (members, r) => ((name, j) :: members, r))
        | _ => none

end

theorem skipSpace_append {gap : Text} (hGap : ∀ c ∈ gap, isSpace c = true) (s : Text) :
    skipSpace (gap ++ s) = skipSpace s :=
  List.dropWhile_append_of_pos hGap

theorem skipSpace_cons {c : Char} (h : isSpace c = false) (s : Text) :
    skipSpace (c :: s) = c :: s :=
  List.dropWhile_cons_of_neg (by simp [h])

/-- White space before a value is passed over. -/
theorem value?_congr {steps : Nat} {s t : Text} (h : skipSpace s = skipSpace t) :
    value? steps s = value? steps t := by
  cases steps with
  | zero => rw [value?, value?]
  | succ steps => rw [value?, value?, h]

theorem items?_congr {steps : Nat} {s t : Text} (h : skipSpace s = skipSpace t) :
    items? steps s = items? steps t := by
  cases steps with
  | zero => rw [items?, items?]
  | succ steps => rw [items?, items?, value?_congr h]

theorem members?_congr {steps : Nat} {s t : Text} (h : skipSpace s = skipSpace t) :
    members? steps s = members? steps t := by
  cases steps with
  | zero => rw [members?, members?]
  | succ steps => rw [members?, members?, h]

theorem value?_array (steps : Nat) (s : Text) :
    value? (steps + 1) ('[' :: s) =
      match skipSpace s with
      | ']' :: r => some (.arr [], r)
      | r => (items? steps r).map (fun (items, r) => (.arr items, r)) := by
  rw [value?, skipSpace_cons (c := '[') rfl]
  rfl

theorem value?_object (steps : Nat) (s : Text) :
    value? (steps + 1) ('\x7b' :: s) =
      match skipSpace s with
      | '\x7d' :: r => some (.obj [], r)
      | r => (members? steps r).map (fun (members, r) => (ofMembers members, r)) := by
  rw [value?, skipSpace_cons (c := '\x7b') rfl]
  rfl

/-- The value that a whole text stands for. Every second step consumes a
character, so twice the length of the text bounds the steps. -/
def parse? (s : Text) : Option Json :=
  match value? (2 * s.length + 2) s with
  | some (j, rest) => if (skipSpace rest).isEmpty then some j else none
  | none => none

end Drydock.Json
