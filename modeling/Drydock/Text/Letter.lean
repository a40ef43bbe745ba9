import Drydock.Text.Basic

/-! Letters without regard to case. Two characters beyond `A` to `Z` fold to a
letter of that range, the long s U+017F and the kelvin sign U+212A, and a search
that ignores case finds them too. Plain comparison up to case
(`Text.sameLetters`) does not. Digits of base sixteen are read in letters of
either case, `A` to `F` and no others, and written in small ones. -/
namespace Drydock.Text

/-- The small letter that a character folds to; other characters fold to
themselves. -/
def fold (c : Char) : Char :=
  if c = '\u017F' then 's' else if c = '\u212A' then 'k' else c.toLower

/-- A character that folds to one of `a` to `z`. -/
def isFoldedLetter (c : Char) : Bool :=
  (fold c).isLower

/-- The rest of a text after `lead`, read without regard to case. `lead` is
given in small letters. -/
def afterFolded? : Text → Text → Option Text
  | [], s => some s
  | _ :: _, [] => none
  | p :: ps, c :: cs => if fold c = p then afterFolded? ps cs else none

/-- Whether the text ends in `tail`, read without regard to case. -/
def endsFolded (tail s : Text) : Bool :=
  (endings s).any (fun e => afterFolded? tail e == some [])

/-- What follows the first place where `part` stands, read without regard to
case. -/
def afterFirstFolded? (part : Text) : Text → Option Text
  | [] => afterFolded? part []
  | c :: cs =>
    match afterFolded? part (c :: cs) with
    | some rest => some rest
    | none => afterFirstFolded? part cs

def hexValue? (c : Char) : Option Nat :=
  if c.isDigit then some (c.toNat - 0x30)
  else if 'a' ≤ c && c ≤ 'f' then some (c.toNat - 0x57)
  else if 'A' ≤ c && c ≤ 'F' then some (c.toNat - 0x37)
  else none

/-- The number that digits of base sixteen stand for. -/
def hexNumber? (digits : Text) : Option Nat :=
  digits.foldlM (fun n c => (hexValue? c).map (16 * n + ·)) 0

def hexDigit (n : Nat) : Char :=
  if n < 10 then Char.ofNat (0x30 + n) else Char.ofNat (0x57 + n)

end Drydock.Text
