import Drydock.Toml.Scalar
import Drydock.Toml.Token

/-! TOML documents. A document is a table made of statements: keys with values,
and headers that name the table to which the keys after them belong. No key is
given twice, no table is begun twice, and a table in braces is complete where it
stands. -/
namespace Drydock.Toml

/-- Put a value under a key with dots into a table. Tables on the way are made
where they are missing. One that is there must have been named only on the way
to something else, and takes a value of its own only from a key with dots like
those that made it; `takesKeys` tells whether the table at hand does. -/
def insert? (takesKeys : Bool) (entries : Entries) (value : Value) :
    List String → Option Entries
  | [] => none
  | [key] =>
    if takesKeys && (entries.get? key).isNone then some (entries.set key value) else none
  | key :: rest =>
    match entries.get? key with
    | none => (insert? true [] value rest).map (fun es => entries.set key (.table .dotted es))
    | some (.table kind inner) =>
      if kind.isImplicit then
        (insert? (kind == .dotted) inner value rest).map
          (fun es => entries.set key (.table kind es))
      else none
    | some (.array true items) =>
      match items.getLast? with
      | some (.table kind inner) =>
        (insert? (kind == .dotted) inner value rest).map
          (fun es => entries.set key (.array true (items.dropLast ++ [.table kind es])))
      | _ => none
    | some _ => none

/-- Change the table that a header's path leads to. Tables on the way are made
where they are missing, and the way through an array of tables leads to its last
one. -/
def within? (change : Entries → Option Entries) (entries : Entries) :
    List String → Option Entries
  | [] => change entries
  | key :: rest =>
    match entries.get? key with
    | none => (within? change [] rest).map (fun es => entries.set key (.table .implied es))
    | some (.table kind inner) =>
      if kind == .braced then none
      else (within? change inner rest).map (fun es => entries.set key (.table kind es))
    | some (.array true items) =>
      match items.getLast? with
      | some (.table kind inner) =>
        (within? change inner rest).map
          (fun es => entries.set key (.array true (items.dropLast ++ [.table kind es])))
      | _ => none
    | some _ => none

/-- A table with a value added under a key, or the place of the key if it cannot
be added. The first fault counts. -/
def addField (entries : Content Entries) (keys : Content (List String)) (v : Content Value)
    (place : Text) : Content Entries := do
  let entries ← entries
  let keys ← keys
  match insert? true entries (← v) keys with
  | some entries => return entries
  | none => .error place

mutual

/-- A value, read in at most `steps` steps, in which brackets and braces stand
within each other at most `depth` deep. -/
def value : Nat → Nat → Text → Read (Content Value)
  | 0, _, s => .error s
  | steps + 1, depth, s =>
    match s with
    | '[' :: rest =>
      match depth with
      | 0 => .error s
      | depth + 1 =>
        (items steps depth rest).map (fun (vs, r) => (vs.map (.array false ·), r))
    | '\x7b' :: rest =>
      match depth with
      | 0 => .error s
      | depth + 1 =>
        (fields steps depth (.ok []) rest).map (fun (es, r) => (es.map (.table .braced ·), r))
    | '"' :: _ => (string s).map (fun (t, r) => (t.map (fun t => .str (String.ofList t)), r))
    | '\x27' :: _ => (string s).map (fun (t, r) => (t.map (fun t => .str (String.ofList t)), r))
    | _ => scalarAt s

/-- The items of an array after its bracket. They may stand on lines of their
own, and a comma may follow the last. -/
def items : Nat → Nat → Text → Read (Content (List Value))
  | 0, _, s => .error s
  | steps + 1, depth, s =>
    match skipFiller false s with
    | ']' :: rest => .ok (.ok [], rest)
    | first =>
      match value steps depth first with
      | .error place => .error place
      | .ok (v, rest) =>
        match skipFiller false rest with
        | ',' :: more => (items steps depth more).map (fun (vs, r) => (Content.cons v vs, r))
        | ']' :: more => .ok (Content.cons v (.ok []), more)
        | other => .error other

/-- The entries of a table in braces after the entries `entries`. Line ends may
stand between them and around the sign of each, and a comma may follow the
last. -/
def fields : Nat → Nat → Content Entries → Text → Read (Content Entries)
  | 0, _, _, s => .error s
  | steps + 1, depth, entries, s =>
    match skipFiller false s with
    | '\x7d' :: rest => .ok (entries, rest)
    | first =>
      match key first with
      | .error place => .error place
      | .ok (keys, afterKey) =>
        match skipFiller false afterKey with
        | '=' :: afterSign =>
          match value steps depth (skipFiller false afterSign) with
          | .error place => .error place
          | .ok (v, rest) =>
            let entries := addField entries keys v first
            match skipFiller false rest with
            | ',' :: more => fields steps depth entries more
            | '\x7d' :: more => .ok (entries, more)
            | other => .error other
        | other => .error other

end

inductive Statement where
  /-- A header in single brackets or, for the next table of an array, in double
  ones. -/
  | header (ofTables : Bool) (path : List String)
  /-- A key with its value. -/
  | entry (keys : List String) (value : Value)

/-- The statement at the front of a text, if it does not begin with blanks, a
comment or a line end. Each step of reading a value takes a character or comes
before one that does, so twice the length of the text bounds their number. -/
def statement : Text → Read (Content Statement)
  | '[' :: '[' :: s =>
    match key s with
    | .error place => .error place
    | .ok (path, ']' :: ']' :: rest) => .ok (path.map (.header true ·), rest)
    | .ok (_, rest) => .error rest
  | '[' :: s =>
    match key s with
    | .error place => .error place
    | .ok (path, ']' :: rest) => .ok (path.map (.header false ·), rest)
    | .ok (_, rest) => .error rest
  | s =>
    match key s with
    | .error place => .error place
    | .ok (keys, '=' :: rest) =>
      (value (2 * rest.length + 2) maxDepth (skipSpaces rest)).map fun (v, r) =>
        (do return .entry (← keys) (← v), r)
    | .ok (_, rest) => .error rest

/-- The statements of a text with at most `steps` lines. -/
def statementsIn : Nat → Text → Except Text (List (Content Statement))
  | 0, s => .error s
  | steps + 1, s =>
    match skipSpaces s with
    | [] => .ok []
    | c :: rest =>
      if c == '#' || c == '\n' || c == '\r' then
        (afterStatement (c :: rest)).bind (statementsIn steps)
      else
        match statement (c :: rest) with
        | .error place => .error place
        | .ok (st, more) =>
          ((afterStatement more).bind (statementsIn steps)).map (st :: ·)

def statements (s : Text) : Except Text (List (Content Statement)) :=
  statementsIn (s.length + 1) s

/-- The statements before the first that is at fault, and the place of the
fault. -/
def soundPart : List (Content Statement) → List Statement × Option Text
  | [] => ([], none)
  | .error place :: _ => ([], some place)
  | .ok st :: rest =>
    let (sound, place?) := soundPart rest
    (st :: sound, place?)

/-- Keys with their values, as they stand under one header. -/
abbrev Body := List (List String × Value)

/-- A header and what stands under it. -/
structure Section where
  ofTables : Bool
  path : List String
  body : Body

def sections : List Statement → Body × List Section
  | [] => ([], [])
  | .entry keys value :: rest =>
    let (body, more) := sections rest
    ((keys, value) :: body, more)
  | .header ofTables path :: rest =>
    let (body, more) := sections rest
    ([], { ofTables, path, body } :: more)

/-- A table with the entries of a body added. -/
def Body.addTo? (body : Body) (entries : Entries) : Option Entries :=
  body.foldlM (fun es (keys, value) => insert? true es value keys) entries

/-- The document with a section added. A header in single brackets begins a
table, or goes on with one that was only named on the way to another header. -/
def Section.addTo? (sec : Section) (document : Entries) : Option Entries :=
  match sec.path.getLast? with
  | none => none
  | some key =>
    within? (fun entries =>
        match sec.ofTables, entries.get? key with
        | false, none =>
          (sec.body.addTo? []).map (fun es => entries.set key (.table .headed es))
        | false, some (.table .implied inner) =>
          (sec.body.addTo? inner).map (fun es => entries.set key (.table .headed es))
        | true, none =>
          (sec.body.addTo? []).map
            (fun es => entries.set key (.array true [.table .headed es]))
        | true, some (.array true items) =>
          (sec.body.addTo? []).map
            (fun es => entries.set key (.array true (items ++ [.table .headed es])))
        | _, _ => none)
      document sec.path.dropLast

def dropMark : Text → Text
  | '\uFEFF' :: rest => rest
  | s => s

/-- Why a text is no document. -/
inductive Fault where
  /-- It cannot be read from a place on, given by the text that begins there. -/
  | unreadable (place : Text)
  /-- A key is given twice, or a table begun twice. -/
  | conflict
  deriving DecidableEq, Repr

/-- The table that statements make, if none is in conflict with another. -/
def build? (statements : List Statement) : Option Entries :=
  let (body, more) := sections statements
  (body.addTo? []).bind fun root => more.foldlM (fun es sec => sec.addTo? es) root

def document (s : Text) : Except Fault Entries :=
  match statements (dropMark s) with
  | .error place => .error (.unreadable place)
  | .ok found =>
    let (sound, place?) := soundPart found
    match build? sound, place? with
    | none, _ => .error .conflict
    | some _, some place => .error (.unreadable place)
    | some entries, none => .ok entries

end Drydock.Toml
