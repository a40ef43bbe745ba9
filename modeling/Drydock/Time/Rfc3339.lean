import Drydock.Text.Blank
import Drydock.Time.Instant

/-! Instants as text in the form of RFC 3339. Writing gives universal time with
`Z` and, of no, three, six or nine places after the point, the fewest that are
exact. Reading takes any offset, a space for the `T`, digits left out at the
front of a component and blanks around components. -/
namespace Drydock.Instant

/-- Decimal digits, filled with zeros to a width. -/
def padded (width n : Nat) : Text :=
  let digits := n.repr.toList
  List.replicate (width - digits.length) '0' ++ digits

/-- A year: four digits from 0 to 9999, and a sign in front beyond. -/
def yearText (year : Int) : Text :=
  if 0 ≤ year && year ≤ 9999 then padded 4 year.toNat
  else (if year < 0 then '-' else '+') :: padded 4 year.natAbs

def fractionText (nanos : Nat) : Text :=
  if nanos == 0 then []
  else if nanos % 1000000 == 0 then '.' :: padded 3 (nanos / 1000000)
  else if nanos % 1000 == 0 then '.' :: padded 6 (nanos / 1000)
  else '.' :: padded 9 nanos

/-- The instant in universal time. -/
def toText (t : Instant) : Text :=
  let date := t.date
  let second := t.secondOfDay
  let leap := if 1000000000 ≤ t.nanos then 1 else 0
  yearText date.year ++ '-' :: padded 2 date.month ++ '-' :: padded 2 date.day ++
    'T' :: padded 2 (second / 3600) ++ ':' :: padded 2 (second / 60 % 60) ++
    ':' :: padded 2 (second % 60 + leap) ++ fractionText (t.nanos - leap * 1000000000) ++ ['Z']

/-- At least one and at most `most` digits, after blanks. -/
def digits? (most : Nat) (s : Text) : Option (Text × Text) :=
  let s := Text.trimStart s
  match (s.take most).takeWhile Char.isDigit with
  | [] => none
  | ds => some (ds, s.drop ds.length)

/-- A number of at most two digits, after blanks. -/
def number? (s : Text) : Option (Nat × Text) :=
  (digits? 2 s).map (fun (ds, r) => (Nat.ofDigitChars 10 ds 0, r))

/-- A given character, after blanks. -/
def mark? (c : Char) (s : Text) : Option Text :=
  Text.after? [c] (Text.trimStart s)

/-- A year, of at most four digits unless it has a sign. -/
def year? (s : Text) : Option (Int × Text) :=
  let signed := fun rest : Text =>
    match rest.takeWhile Char.isDigit with
    | [] => none
    | ds => some (Nat.ofDigitChars 10 ds 0, rest.dropWhile Char.isDigit)
  match Text.trimStart s with
  | '-' :: rest => (signed rest).map (fun (n, r) => (-(n : Int), r))
  | '+' :: rest => (signed rest).map (fun (n, r) => ((n : Int), r))
  | other => (digits? 4 other).map (fun (ds, r) => ((Nat.ofDigitChars 10 ds 0 : Int), r))

/-- The nanoseconds of a fraction, if there is one. Digits after the ninth do
not count. -/
def fraction? : Text → Option (Nat × Text)
  | '.' :: rest =>
    match rest.takeWhile Char.isDigit with
    | [] => none
    | ds =>
      let nine := ds.take 9
      some (Nat.ofDigitChars 10 nine 0 * Nat.pow 10 (9 - nine.length), rest.dropWhile Char.isDigit)
  | s => some (0, s)

def pair? : Text → Option (Nat × Text)
  | a :: b :: rest =>
    if a.isDigit && b.isDigit then some (Nat.ofDigitChars 10 [a, b] 0, rest) else none
  | _ => none

/-- Hours and minutes of an offset as seconds. -/
def offsetSize? (s : Text) : Option (Nat × Text) := do
  let (hours, s) ← pair? s
  let (minutes, s) ← pair? (s.dropWhile (fun c => c == ':' || Text.isBlank c))
  if hours < 24 && minutes < 60 then return (hours * 3600 + minutes * 60, s) else none

/-- An offset from universal time in seconds. The minus sign U+2212 will do as
well. -/
def offset? (s : Text) : Option (Int × Text) :=
  let s := Text.trimStart s
  if Text.sameLetters (s.take 3) "UTC".toList then some (0, s.drop 3)
  else
    match s with
    | [] => none
    | c :: rest =>
      if c == 'Z' || c == 'z' then some (0, rest)
      else if c == '+' then (offsetSize? rest).map (fun (n, r) => ((n : Int), r))
      else if c == '-' || c == '−' then (offsetSize? rest).map (fun (n, r) => (-(n : Int), r))
      else none

def separator? : Text → Option Text
  | c :: rest => if c == 'T' || c == 't' || c == ' ' then some rest else none
  | [] => none

/-- The years that instants are kept for. -/
def yearInRange (year : Int) : Bool :=
  -262143 ≤ year && year ≤ 262142

/-- Read an instant. Second 60 is a leap second. -/
def ofText? (s : Text) : Option Instant := do
  let (year, s) ← year? s
  let s ← mark? '-' s
  let (month, s) ← number? s
  let s ← mark? '-' s
  let (day, s) ← number? s
  let s ← separator? s
  let (hour, s) ← number? s
  let s ← mark? ':' s
  let (minute, s) ← number? s
  let s ← mark? ':' s
  let (second, s) ← number? s
  let (nanos, s) ← fraction? s
  let (offset, s) ← offset? s
  let date : Date := { year, month, day }
  let leap := if second == 60 then 1 else 0
  if date.isValid && yearInRange year && hour < 24 && minute < 60 && second ≤ 60 &&
      s.all Text.isBlank then
    some
      { seconds := (date.toDay - epochDay) * 86400 + hour * 3600 + minute * 60 +
          (second - leap : Nat) - offset
        nanos := nanos + leap * 1000000000 }
  else none

end Drydock.Instant
