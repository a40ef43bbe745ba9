import Drydock.Text.Basic

/-! Paths as text. A path is relative or begins with a slash. Slashes divide its
parts; empty parts and parts that are a single dot, but for one at the beginning
of a relative path, count for nothing. -/
namespace Drydock.Path

/-- The beginning of a path that is no part of it, a slash or a dot, and the
rest. -/
def splitLead : Text → Text × Text
  | '/' :: rest => (['/'], rest)
  | ['.'] => (['.'], [])
  | '.' :: '/' :: rest => (['.'], '/' :: rest)
  | p => ([], p)

/-- A path read backwards, without the slashes and the parts at its end that
count for nothing. -/
def trimBack : Text → Text
  | '/' :: rest => trimBack rest
  | '.' :: '/' :: rest => trimBack rest
  | ['.'] => []
  | p => p

def parent? (p : Text) : Option Text :=
  let (lead, body) := splitLead p
  match trimBack body.reverse with
  | [] => if lead = ['.'] then some [] else none
  | back => some (lead ++ (trimBack (back.dropWhile (· != '/'))).reverse)

def directory (p : Text) : Text :=
  match parent? p with
  | some (c :: rest) => c :: rest
  | _ => ['.']

def join (base name : Text) : Text :=
  match base.getLast? with
  | none => name
  | some '/' => base ++ name
  | some _ => base ++ '/' :: name

end Drydock.Path
