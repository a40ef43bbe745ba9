import Drydock.Json.Basic

/-! Reading records out of JSON values. A record is an object with named
members, where unknown members are passed over and a known one given twice is
refused, or an array of its fields in their order, where surplus items are
refused. A field left out of an object may have a default; in an array only
trailing fields that say so may be left out. -/
namespace Drydock.Json

/-- The fields of a record as they were given. -/
structure Fields where
  /-- Whether the fields were given by position. -/
  positional : Bool
  /-- The fields in their order; `none` for one left out. -/
  slots : List (Option Json)

/-- The fields of a record with the given names. -/
def fields? (names : List String) : Json → Option Fields
  | .obj members =>
    let given := fun name => (members.filter (·.1 == name)).map Prod.snd
    if names.all (fun name => (given name).length ≤ 1) then
      some { positional := false, slots := names.map (fun name => (given name).head?) }
    else none
  | .arr items =>
    if items.length ≤ names.length then
      some
        { positional := true
          slots := items.map some ++ List.replicate (names.length - items.length) none }
    else none
  | _ => none

namespace Fields

def slot (f : Fields) (n : Nat) : Option Json :=
  (f.slots[n]?).join

def required? {α : Type} (f : Fields) (n : Nat) (decode : Json → Option α) : Option α :=
  (f.slot n).bind decode

/-- A field with a default. -/
def defaulted? {α : Type} (f : Fields) (n : Nat) (default : α) (decode : Json → Option α) :
    Option α :=
  match f.slot n with
  | none => some default
  | some j => decode j

/-- A field that may be left out of an object. -/
def optional? {α : Type} (f : Fields) (n : Nat) (decode : Json → Option (Option α)) :
    Option (Option α) :=
  match f.slot n with
  | none => if f.positional then none else some none
  | some j => decode j

end Fields

def asString? : Json → Option String
  | .str s => some s
  | _ => none

def asBool? : Json → Option Bool
  | .bool b => some b
  | _ => none

/-- A natural number of at most `bits` binary digits, written as a plain
integer. -/
def asNat? (bits : Nat) : Json → Option Nat
  | .int (.ofNat n) => if n < Nat.pow 2 bits then some n else none
  | _ => none

/-- A list of which every item can be read. -/
def asList? {α : Type} (decode : Json → Option α) : Json → Option (List α)
  | .arr items => items.mapM decode
  | _ => none

def orNull? {α : Type} (decode : Json → Option α) : Json → Option (Option α)
  | .null => some none
  | j => (decode j).map some

/-- One of finitely many words, given as a string or as the only member, with
value null, of an object. -/
def asWord? {α : Type} (ofName? : String → Option α) : Json → Option α
  | .str name => ofName? name
  | .obj [(name, .null)] => ofName? name
  | _ => none

end Drydock.Json
