import Drydock.Text.Basic

/-! JSON values. Objects keep the order of their members and may name one twice;
numbers that are not plain integers are kept as written. -/
namespace Drydock

inductive Json where
  | null
  | bool (value : Bool)
  /-- An integer without fraction and exponent. -/
  | int (value : Int)
  /-- Any other number. -/
  | numeral (literal : String)
  | str (value : String)
  /-- A string with an escape for half of a surrogate pair, or an object with
  such a string for a name. It is written by the rules of JSON and stands for no
  text. -/
  | unpaired
  | arr (items : List Json)
  | obj (members : List (String × Json))
  deriving Repr, BEq, Inhabited

namespace Json

def nat (n : Nat) : Json :=
  .int n

/-- The member of an object with a given name; of several the last. -/
def get? (j : Json) (name : String) : Option Json :=
  match j with
  | .obj members => (members.reverse.find? (·.1 == name)).map Prod.snd
  | _ => none

end Json

end Drydock
