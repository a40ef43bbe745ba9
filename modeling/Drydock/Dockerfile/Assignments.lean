import Drydock.Text.Blank

/-! Assignments, `KEY=VALUE` with blanks between them. A value that begins with
a double quote reaches to the next quote that no backslash stands before, and
its text is kept as it is written. A key that no `=` follows takes all the rest
of the text as its value. An `=` without a key is passed over. -/
namespace Drydock.Assignments

/-- The value of a key that no `=` follows: trimmed, and freed from a pair of
quotes around it. -/
def looseValue (rest : Text) : Text :=
  match Text.trim rest with
  | '"' :: inner => (Text.dropLast? '"' inner).getD ('"' :: inner)
  | value => value

mutual

/-- Read assignments, where a key or the end has to follow. -/
def read : Text → List (Text × Text)
  | [] => []
  | c :: cs =>
    if c == '=' || Text.isBlank c then read cs
    else
      let (key, value, more) := inKey cs
      (c :: key, value) :: more

/-- Read on inside a key: the rest of the key, its value, and the assignments
after it. -/
def inKey : Text → Text × Text × List (Text × Text)
  | [] => ([], [], [])
  | '=' :: '"' :: cs =>
    let (value, more) := inQuotes cs
    ([], value, more)
  | '=' :: cs =>
    let (value, more) := inBare cs
    ([], value, more)
  | c :: cs =>
    if Text.isBlank c then ([], looseValue cs, [])
    else
      let (key, value, more) := inKey cs
      (c :: key, value, more)

/-- Read on inside a value without quotes. -/
def inBare : Text → Text × List (Text × Text)
  | [] => ([], [])
  | c :: cs =>
    if Text.isBlank c then ([], read cs)
    else
      let (value, more) := inBare cs
      (c :: value, more)

/-- Read on inside quotes. A value whose quotes are not closed reaches to the
end. -/
def inQuotes : Text → Text × List (Text × Text)
  | [] => ([], [])
  | '"' :: cs => ([], read cs)
  | '\\' :: c :: cs =>
    let (value, more) := inQuotes cs
    ('\\' :: c :: value, more)
  | c :: cs =>
    let (value, more) := inQuotes cs
    (c :: value, more)

end

end Drydock.Assignments
