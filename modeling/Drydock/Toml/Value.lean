import Drydock.Text.Basic

/-! Values of a TOML document. A table remembers how it was written, because
that decides whether the document may add to it further down. -/
namespace Drydock.Toml

/-- How a table came to be in the document. -/
inductive TableKind where
  /-- It has a header of its own, or is the document itself. -/
  | headed
  /-- It was named on the way to the header of another table. -/
  | implied
  /-- It was named on the way to a key with dots in it. -/
  | dotted
  /-- It was written in braces. -/
  | braced
  deriving DecidableEq, Repr

namespace TableKind

/-- Whether the table was only named on the way to something else. -/
def isImplicit : TableKind → Bool
  | .implied => true
  | .dotted => true
  | _ => false

end TableKind

inductive Value where
  | str (value : String)
  | int (value : Int)
  /-- A word in the form of an integer that stands for no number. It may stand
  where nobody reads it. -/
  | misshapen
  /-- A finite number `digits * 10 ^ exponent`, up to its sign. -/
  | decimal (digits : Nat) (exponent : Int)
  /-- An infinity or a value that is not a number. -/
  | special
  | bool (value : Bool)
  /-- A date, a time or both, which nothing here looks into. -/
  | moment
  /-- An array. `ofTables` tells whether headers in double brackets add to
  it. -/
  | array (ofTables : Bool) (items : List Value)
  | table (kind : TableKind) (entries : List (String × Value))
  deriving Repr, Inhabited

/-- The keys of a table with their values. -/
abbrev Entries := List (String × Value)

namespace Entries

def get? (entries : Entries) (key : String) : Option Value :=
  (entries.find? (·.1 == key)).map Prod.snd

/-- The table with a key's value replaced or a key added. -/
def set (key : String) (value : Value) : Entries → Entries
  | [] => [(key, value)]
  | (k, v) :: rest => if k == key then (k, value) :: rest else (k, v) :: set key value rest

end Entries

end Drydock.Toml
