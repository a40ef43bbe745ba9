import Drydock.Toml.Value

/-! Reading records out of TOML values. A record is a table, where unknown keys
are passed over, or an array of its fields in their order, where surplus items
are not looked at. Every field may be left out, so a date or a time is a record
without fields. -/
namespace Drydock.Toml

/-- The least number that no finite number of double precision is nearest to:
half a step above the greatest of them. -/
def overflow : Nat :=
  Nat.pow 2 1024 - Nat.pow 2 970

/-- Whether `digits * 10 ^ exponent` rounds to a finite number of double
precision. -/
def isFinite (digits : Nat) (exponent : Int) : Bool :=
  let size := (Nat.toDigits 10 digits).length
  if digits == 0 || exponent + size ≤ 308 then true
  else if 310 < exponent + size then false
  else if 0 ≤ exponent then digits * Nat.pow 10 exponent.toNat < overflow
  else digits < overflow * Nat.pow 10 (-exponent).toNat

mutual

/-- Whether a value that is passed over can be held at all: integers have 128
bits and other numbers do not overflow. -/
def Value.isBounded : Value → Bool
  | .int (.ofNat n) => n < Nat.pow 2 128
  | .int (.negSucc n) => n < Nat.pow 2 127
  | .misshapen => false
  | .decimal digits exponent => isFinite digits exponent
  | .array _ items => areBounded items
  | .table _ entries => entriesAreBounded entries
  | _ => true

def areBounded : List Value → Bool
  | [] => true
  | v :: rest => v.isBounded && areBounded rest

def entriesAreBounded : List (String × Value) → Bool
  | [] => true
  | (_, v) :: rest => v.isBounded && entriesAreBounded rest

end

/-- Why a value cannot be read as what is expected. -/
inductive Mismatch where
  /-- It has another type, or is out of range. -/
  | type
  /-- It is a word, and not one of those expected. -/
  | word (name : String)
  deriving DecidableEq, Repr

namespace Value

/-- The fields of a record with the given names, in their order; `none` for one
left out. -/
def fields (names : List String) : Value → Except Mismatch (List (Option Value))
  | .table _ entries =>
    if entriesAreBounded (entries.filter (fun (key, _) => !names.contains key)) then
      .ok (names.map (Entries.get? entries))
    else .error .type
  | .array _ items => .ok ((List.range names.length).map (items[·]?))
  | .moment => .ok (names.map (fun _ => none))
  | _ => .error .type

def field {α : Type} (fields : List (Option Value)) (n : Nat) (default : α)
    (decode : Value → Except Mismatch α) : Except Mismatch α :=
  match fields[n]? with
  | some (some v) => decode v
  | _ => .ok default

def asString : Value → Except Mismatch String
  | .str s => .ok s
  | _ => .error .type

def asBool : Value → Except Mismatch Bool
  | .bool b => .ok b
  | _ => .error .type

/-- A natural number of at most `bits` binary digits. -/
def asNat (bits : Nat) : Value → Except Mismatch Nat
  | .int (.ofNat n) => if n < Nat.pow 2 bits then .ok n else .error .type
  | _ => .error .type

/-- A list of which every item can be read. -/
def asList {α : Type} (decode : Value → Except Mismatch α) : Value → Except Mismatch (List α)
  | .array _ items => items.mapM decode
  | _ => .error .type

/-- Whether a value is a table or an array with nothing in it. -/
def isEmpty : Value → Bool
  | .table _ [] => true
  | .array _ [] => true
  | _ => false

/-- One of finitely many words, given as a string or as the only key of a table
with an empty value. -/
def asWord {α : Type} (ofName? : String → Option α) : Value → Except Mismatch α
  | .str name =>
    match ofName? name with
    | some a => .ok a
    | none => .error (.word name)
  | .table _ [(name, v)] =>
    match ofName? name with
    | some a => if v.isEmpty then .ok a else .error .type
    | none => .error (.word name)
  | _ => .error .type

end Value

end Drydock.Toml
