import Drydock.Text.Basic

/-! Text from bytes in UTF-8. Reading is strict or forgiving; a forgiving reader
puts the replacement character U+FFFD for each stretch of bytes that begins like
a character and cannot go on as one, and for each byte that begins none. -/
namespace Drydock.Utf8

/-- A character of which some bytes have been read. -/
structure Partial where
  /-- The value of the bits so far. -/
  value : Nat
  /-- The least value that the next byte may have. -/
  least : Nat
  /-- The greatest value that the next byte may have. -/
  greatest : Nat
  /-- How many bytes come after the next one. -/
  more : Nat

/-- What a byte completes and what it begins. A `none` among the characters
stands for a malformed stretch. -/
abbrev Step := List (Option Char) × Option Partial

/-- What a byte does where a character is due. -/
def opening (b : UInt8) : Step :=
  let n := b.toNat
  if n < 0x80 then ([some (Char.ofNat n)], none)
  else if 0xC2 ≤ n && n ≤ 0xDF then ([], some ⟨n - 0xC0, 0x80, 0xBF, 0⟩)
  else if n == 0xE0 then ([], some ⟨0, 0xA0, 0xBF, 1⟩)
  else if n == 0xED then ([], some ⟨0xD, 0x80, 0x9F, 1⟩)
  else if 0xE1 ≤ n && n ≤ 0xEF then ([], some ⟨n - 0xE0, 0x80, 0xBF, 1⟩)
  else if n == 0xF0 then ([], some ⟨0, 0x90, 0xBF, 2⟩)
  else if 0xF1 ≤ n && n ≤ 0xF3 then ([], some ⟨n - 0xF0, 0x80, 0xBF, 2⟩)
  else if n == 0xF4 then ([], some ⟨4, 0x80, 0x8F, 2⟩)
  else ([none], none)

/-- What a byte does after a character was begun. A byte that cannot go on with
it ends it as malformed and begins anew. -/
def Partial.next (p : Partial) (b : UInt8) : Step :=
  if p.least ≤ b.toNat && b.toNat ≤ p.greatest then
    let value := p.value * 64 + (b.toNat - 0x80)
    match p.more with
    | 0 => ([some (Char.ofNat value)], none)
    | more + 1 => ([], some ⟨value, 0x80, 0xBF, more⟩)
  else
    let (found, begun?) := opening b
    (none :: found, begun?)

def step : Option Partial → UInt8 → Step
  | none, b => opening b
  | some p, b => p.next b

/-- The characters of a sequence of bytes, with `none` for each malformed
stretch. `begun?` is the character that the bytes before have begun. -/
def charsFrom (begun? : Option Partial) : List UInt8 → List (Option Char)
  | [] => if begun?.isSome then [none] else []
  | b :: rest =>
    let (found, begun?) := step begun? b
    found ++ charsFrom begun? rest

/-- The text of bytes that are wholly in UTF-8. -/
def decode? (bytes : List UInt8) : Option Text :=
  (charsFrom none bytes).mapM id

/-- The text of bytes, with what is malformed replaced. -/
def decodeLossy (bytes : List UInt8) : Text :=
  (charsFrom none bytes).map (·.getD '�')

end Drydock.Utf8
