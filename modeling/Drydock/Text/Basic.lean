/-! Text as the list of its characters. Reading a build file works on the
characters themselves; a `String` is made only for what leaves the library. -/
namespace Drydock

/-- A piece of text, character by character. -/
abbrev Text := List Char

namespace Text

/-- The rest of a text after `lead`, or nothing when it does not start with
it. -/
def after? : Text → Text → Option Text
  | [], s => some s
  | _ :: _, [] => none
  | p :: ps, c :: cs => if c = p then after? ps cs else none

def startsWith (lead s : Text) : Bool :=
  (after? lead s).isSome

def occursIn (part : Text) : Text → Bool
  | [] => part.isEmpty
  | c :: cs => startsWith part (c :: cs) || occursIn part cs

/-- All endings of a text, the text itself first and the empty one last. -/
def endings : Text → List Text
  | [] => [[]]
  | c :: cs => (c :: cs) :: endings cs

/-- The text without its last character when that character is `c`. -/
def dropLast? (c : Char) (s : Text) : Option Text :=
  if s.getLast? = some c then some s.dropLast else none

def join (sep : Text) : List Text → Text
  | [] => []
  | [s] => s
  | s :: t :: rest => s ++ sep ++ join sep (t :: rest)

/-- The part before the first `sep`, which is the whole text when there is
none. -/
def before (sep : Char) (s : Text) : Text :=
  s.takeWhile (· != sep)

/-- The pieces between the occurrences of `sep`. There is always at least
one. -/
def splitAt (sep : Char) : Text → List Text
  | [] => [[]]
  | c :: cs =>
    if c = sep then [] :: splitAt sep cs
    else match splitAt sep cs with
      | [] => [[c]]
      | piece :: pieces => (c :: piece) :: pieces

/-- Capital forms of the letters `a` to `z`; every other character stays. -/
def upper (s : Text) : Text :=
  s.map Char.toUpper

/-- Small forms of the letters `A` to `Z`; every other character stays. -/
def lower (s : Text) : Text :=
  s.map Char.toLower

/-- Equality up to the case of the letters `A` to `Z` and of nothing else. -/
def sameLetters (s t : Text) : Bool :=
  lower s == lower t

theorem sameLetters_iff {s t : Text} : sameLetters s t = true ↔ lower s = lower t := by
  simp [sameLetters]

theorem after?_eq_some_iff {lead s rest : Text} :
    after? lead s = some rest ↔ s = lead ++ rest := by
  fun_induction after? lead s <;> simp_all [eq_comm]

end Text

end Drydock
