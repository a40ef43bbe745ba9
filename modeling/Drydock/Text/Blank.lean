import Drydock.Text.Basic

/-! Blanks: the characters with the Unicode property White_Space. Trimming and
splitting into words go by this property, so a no-break space separates words
and a zero-width space does not. -/
namespace Drydock.Text

/-- The characters with the property White_Space. -/
def isBlank (c : Char) : Bool :=
  let n := c.toNat
  (9 ≤ n && n ≤ 13) || n == 0x20 || n == 0x85 || n == 0xA0 || n == 0x1680 ||
    (0x2000 ≤ n && n ≤ 0x200A) || n == 0x2028 || n == 0x2029 || n == 0x202F ||
    n == 0x205F || n == 0x3000

def trimStart (s : Text) : Text :=
  s.dropWhile isBlank

def trimEnd (s : Text) : Text :=
  (s.reverse.dropWhile isBlank).reverse

def trim (s : Text) : Text :=
  trimEnd (trimStart s)

/-- The text with a character put in front of its first word. -/
def extendFirst (c : Char) : List Text → List Text
  | [] => [[c]]
  | word :: rest => (c :: word) :: rest

/-- The maximal runs of characters that are not blank. -/
def words : Text → List Text
  | [] => []
  | c :: cs =>
    if isBlank c then words cs
    else if cs.head?.all isBlank then [c] :: words cs
    else extendFirst c (words cs)

/-- The leading run of characters that are not blank. -/
def firstRun (s : Text) : Text :=
  s.takeWhile (!isBlank ·)

/-- What follows at least one blank, with all leading blanks removed. -/
def afterBlanks? : Text → Option Text
  | [] => none
  | c :: cs => if isBlank c then some (trimStart cs) else none

end Drydock.Text
