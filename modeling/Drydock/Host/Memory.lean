import Drydock.Host.Basic

/-! A system that is given as data: a few files and programs. Names outside the
working directory lead nowhere. -/
namespace Drydock

namespace Memory

/-- A program: what it does with its arguments and its input. -/
abbrev Program := List String → List UInt8 → Linter.Outcome

/-- What a name can lead to. -/
inductive Item where
  | file (bytes : List UInt8)
  | program (run : Program)
  | directory

end Memory

/-- A system given as data. -/
structure Memory where
  /-- What is in the working directory, each under its path from there. -/
  items : List (List String × Memory.Item)
  /-- What the search path leads to, each under its name. -/
  commands : List (String × Memory.Item)
  input : List UInt8
  home? : Option Text
  time : Instant

namespace Memory

/-- A place in the system. -/
inductive Place where
  /-- In the working directory, at the path from there. -/
  | inside (path : List String)
  /-- A directory that is not inside the working directory. -/
  | outside
  deriving DecidableEq, Repr

/-- What is at a path inside the working directory. A directory is there if
something is in it. -/
def item? (memory : Memory) (path : List String) : Option Item :=
  match memory.items.find? (·.1 == path) with
  | some (_, item) => some item
  | none =>
    if path.isEmpty || memory.items.any (fun (p, _) => path.isPrefixOf p) then
      some .directory
    else none

def longestName : Nat := 255

/-- The first length, in bytes, that a path cannot have. -/
def longPath : Nat := 4096

/-- Go from a place by one part of a path. -/
def descend (memory : Memory) (place : Place) (part : String) : Except FileError Place :=
  match place with
  | .outside =>
    if part = "" || part = "." || part = ".." then .ok .outside else .error .notFound
  | .inside path =>
    match memory.item? path with
    | none => .error .notFound
    | some .directory =>
      if part = "" || part = "." then .ok place
      else if part = ".." then
        .ok (if path.isEmpty then .outside else .inside path.dropLast)
      else if longestName < part.utf8ByteSize then .error .nameTooLong
      else
        match memory.item? (path ++ [part]) with
        | none => .error .notFound
        | some _ => .ok (.inside (path ++ [part]))
    | some _ => .error .notADirectory

def parts (path : Text) : List String :=
  (Text.splitAt '/' path).map String.ofList

def resolve (memory : Memory) (path : Text) : Except FileError Place :=
  if path.contains '\x00' then .error .nulInPath
  else if longPath ≤ (String.ofList path).utf8ByteSize then .error .nameTooLong
  else if path.isEmpty then .error .notFound
  else
    let start := if path.head? = some '/' then Place.outside else Place.inside []
    (parts path).foldlM memory.descend start

def readFile (memory : Memory) (path : Text) : Except FileError (List UInt8) :=
  (memory.resolve path).bind fun
    | .outside => .error .isDirectory
    | .inside path =>
      match memory.item? path with
      | some (.file bytes) => .ok bytes
      | some (.program _) => .ok []
      | some .directory => .error .isDirectory
      | none => .error .notFound

/-- Run what a name or a path leads to. A name without a slash is looked for on
the search path, where the names for directories lead to directories. -/
def launch (memory : Memory) (binary : String) (arguments : List String) (input : List UInt8) :
    Except Linter.LaunchError Linter.Outcome :=
  let start : Option Item → Except Linter.LaunchError Linter.Outcome
    | some (.program run) => .ok (run arguments input)
    | some _ => .error .permissionDenied
    | none => .error .notFound
  if (binary :: arguments).any (·.toList.contains '\x00') then .error .nulInArgument
  else if binary.toList.contains '/' then
    match memory.resolve binary.toList with
    | .ok .outside => .error .permissionDenied
    | .ok (.inside path) => start (memory.item? path)
    | .error .notADirectory => .error .notADirectory
    | .error .nameTooLong => .error .nameTooLong
    | .error _ => .error .notFound
  else if binary = "." || binary = ".." then .error .permissionDenied
  else if longestName < binary.utf8ByteSize then .error .nameTooLong
  else start ((memory.commands.find? (·.1 == binary)).map Prod.snd)

/-- The system that the data stand for. -/
def toHost (memory : Memory) : Host Id :=
  { readFile := memory.readFile
    isPresent := fun path => (memory.resolve path).toOption.isSome
    readInput := memory.input
    home? := memory.home?
    launch := memory.launch
    isTerminal := false
    now := memory.time }

end Memory

end Drydock
