import Drydock.Text.Letter
import Drydock.Time.Instant
import Drydock.Toml.Token
import Drydock.Toml.Value

/-! Numbers, dates and times of a TOML document. -/
namespace Drydock.Toml

/-- The digits of a run in which single underscores may stand between two
digits. -/
def grouped? (isDigit : Char → Bool) : Text → Option Text
  | [] => none
  | [c] => if isDigit c then some [c] else none
  | c :: '_' :: rest => if isDigit c then (grouped? isDigit rest).map (c :: ·) else none
  | c :: rest => if isDigit c then (grouped? isDigit rest).map (c :: ·) else none

/-- Whether a number has a minus sign, and the number without its sign. -/
def splitSign : Text → Bool × Text
  | '-' :: rest => (true, rest)
  | '+' :: rest => (false, rest)
  | s => (false, s)

def signed (negative : Bool) (n : Nat) : Int :=
  if negative then -(n : Int) else n

/-- Digits without a zero that could be left out at the front. -/
def wholeDigits? (s : Text) : Option Text :=
  match grouped? Char.isDigit s with
  | some ('0' :: _ :: _) => none
  | other => other

/-- Whether a character is a digit of a base up to sixteen. -/
def isDigitOf (base : Nat) (c : Char) : Bool :=
  (Text.hexValue? c).any (· < base)

/-- An integer in a base up to sixteen, without a sign. Its digits may be
missing altogether. -/
def based? (base : Nat) : Text → Option Value
  | [] => some .misshapen
  | s => (grouped? (isDigitOf base) s).map fun ds =>
    .int (ds.foldl (fun n c => base * n + (Text.hexValue? c).getD 0) 0 : Nat)

/-- Whether these pieces may follow underscores in an integer: on either side of
an underscore there is a digit of base sixteen. What stands between them is not
looked at. -/
def areGroups : List Text → Bool
  | [] => true
  | [piece] => piece.head?.any (isDigitOf 16)
  | piece :: rest =>
    piece.head?.any (isDigitOf 16) && piece.getLast?.any (isDigitOf 16) && areGroups rest

/-- An integer in base ten. Decimal digits stand before the first underscore,
and more than one digit does not begin with a zero. -/
def wholeNumber? (s : Text) : Option Value :=
  let (negative, digits) := splitSign s
  let first := Text.before '_' digits
  let groups := (Text.splitAt '_' digits).tail
  if !first.isEmpty && first.all Char.isDigit && areGroups groups &&
      (first.head? != some '0' || digits.length == 1) &&
      !digits.any (fun c => c == '.' || c == 'e' || c == 'E') then
    let ds := first ++ groups.flatten
    if ds.all Char.isDigit then some (.int (signed negative (Nat.ofDigitChars 10 ds 0)))
    else some .misshapen
  else none

def integer? : Text → Option Value
  | '0' :: 'x' :: rest => based? 16 rest
  | '0' :: 'o' :: rest => based? 8 rest
  | '0' :: 'b' :: rest => based? 2 rest
  | s => wholeNumber? s

/-- The part of a text before an exponent and the exponent, if there is one. -/
def splitExponent (s : Text) : Text × Option Text :=
  match s.dropWhile (fun c => c != 'e' && c != 'E') with
  | [] => (s, none)
  | _ :: rest => (s.takeWhile (fun c => c != 'e' && c != 'E'), some rest)

/-- The part of a text before a point and the part after it, if there is one. -/
def splitPoint (s : Text) : Text × Option Text :=
  match s.dropWhile (· != '.') with
  | [] => (s, none)
  | _ :: rest => (s.takeWhile (· != '.'), some rest)

def exponent? (s : Text) : Option Int :=
  let (negative, digits) := splitSign s
  (grouped? Char.isDigit digits).map fun ds => signed negative (Nat.ofDigitChars 10 ds 0)

/-- A number with a fraction, an exponent or both. -/
def decimal? (s : Text) : Option Value := do
  let (mantissa, exponent) := splitExponent (splitSign s).2
  let (whole, fraction) := splitPoint mantissa
  if fraction.isNone && exponent.isNone then none
  else
    let ws ← wholeDigits? whole
    let fs ← match fraction with
      | none => some []
      | some f => grouped? Char.isDigit f
    let e ← match exponent with
      | none => some 0
      | some e => exponent? e
    return .decimal (Nat.ofDigitChars 10 (ws ++ fs) 0) (e - fs.length)

/-- An infinity or a value that is not a number. -/
def special? (s : Text) : Option Value :=
  let word := (splitSign s).2
  if word = "inf".toList || word = "nan".toList then some .special else none

/-- Exactly `n` digits as a number, and the rest. -/
def fixed? (n : Nat) (s : Text) : Option (Nat × Text) :=
  let ds := s.take n
  if ds.length == n && ds.all Char.isDigit then some (Nat.ofDigitChars 10 ds 0, s.drop n)
  else none

/-- What follows a day of the calendar. -/
def afterDate? (s : Text) : Option Text := do
  let (year, s) ← fixed? 4 s
  let (month, s) ← fixed? 2 (← Text.after? ['-'] s)
  let (day, s) ← fixed? 2 (← Text.after? ['-'] s)
  if ({ year, month, day } : Date).isValid then some s else none

/-- What follows a fraction of a second, if there is one. -/
def afterFraction? : Text → Option Text
  | '.' :: rest =>
    if rest.head?.any Char.isDigit then some (rest.dropWhile Char.isDigit) else none
  | s => some s

/-- What follows the seconds of a time of day, if there are any. -/
def afterSeconds? : Text → Option Text
  | ':' :: rest => do
    let (second, s) ← fixed? 2 rest
    if second ≤ 60 then afterFraction? s else none
  | s => some s

/-- What follows a time of day. -/
def afterTime? (s : Text) : Option Text := do
  let (hour, s) ← fixed? 2 s
  let (minute, s) ← fixed? 2 (← Text.after? [':'] s)
  if hour < 24 && minute < 60 then afterSeconds? s else none

/-- Whether a text is an offset from universal time, or empty. -/
def isOffset : Text → Bool
  | [] => true
  | [c] => c == 'Z' || c == 'z'
  | c :: rest =>
    (c == '+' || c == '-') &&
      match fixed? 2 rest with
      | some (hours, ':' :: r) =>
        match fixed? 2 r with
        | some (minutes, []) => hours < 24 && minutes < 60
        | _ => false
      | _ => false

/-- A date, a time, or both with or without an offset. -/
def isMoment (s : Text) : Bool :=
  match afterDate? s with
  | some [] => true
  | some (c :: rest) =>
    (c == 'T' || c == 't' || c == ' ') &&
      match afterTime? rest with
      | some offset => isOffset offset
      | none => false
  | none => afterTime? s == some []

/-- A number, a truth value, a date or a time, given whole. -/
def scalarOf? (s : Text) : Option Value :=
  if s = "true".toList then some (.bool true)
  else if s = "false".toList then some (.bool false)
  else if isMoment s then some .moment
  else
    match integer? s with
    | some v => some v
    | none =>
      match decimal? s with
      | some v => some v
      | none => special? s

/-- A number, a truth value, a date or a time given as a word. -/
def scalar (word : Text) (place : Text) : Content Value :=
  match scalarOf? word with
  | some v => .ok v
  | none => .error place

/-- A number, a truth value, a date or a time at the front of a text. A space
may divide a date from a time. -/
def scalarAt (s : Text) : Read (Content Value) :=
  let word := s.takeWhile isWordChar
  let rest := s.dropWhile isWordChar
  if word.isEmpty then .error s
  else
    match rest with
    | ' ' :: more =>
      if afterDate? word == some [] && more.head?.any Char.isDigit then
        .ok (scalar (word ++ ' ' :: more.takeWhile isWordChar) s, more.dropWhile isWordChar)
      else .ok (scalar word s, rest)
    | _ => .ok (scalar word s, rest)

end Drydock.Toml
