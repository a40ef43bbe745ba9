import Drydock.CommandLine.Basic

/-! Reading command lines. An option takes its value from the same argument or
from the next one. A value is looked at only when the next option, flag or path
is met or the arguments end, so an unknown argument is reported before a wrong
value in front of it. -/
namespace Drydock

/-- Why a command line asks for no validation. -/
inductive Halt where
  /-- An option or flag that there is not, or a second path. -/
  | unknownArgument
  /-- A value that is missing or not one of those allowed. -/
  | invalidValue
  /-- A value that is not a number in the range allowed. -/
  | outOfRange
  /-- An option or flag given twice. -/
  | repeated
  /-- A value given to a flag. -/
  | unwantedValue
  /-- A request for help. -/
  | help
  /-- A request for the version. -/
  | version
  deriving DecidableEq, Repr

inductive Flag where
  | noLinter
  | strictPlatform
  | noColor
  | verbose
  | quiet
  | help
  | version
  deriving DecidableEq, Repr

inductive Slot where
  | path
  | format
  | linterBinary
  | platform
  | threshold
  | settingsPath
  deriving DecidableEq, Repr

/-- What a name on the command line stands for. -/
inductive Switch where
  | flag (flag : Flag)
  | option (slot : Slot)
  deriving DecidableEq, Repr

namespace Switch

def ofName? (name : Text) : Option Switch :=
  match String.ofList name with
  | "format" => some (.option .format)
  | "no-external-linter" => some (.flag .noLinter)
  | "linter-bin" => some (.option .linterBinary)
  | "platform" => some (.option .platform)
  | "strict-platform" => some (.flag .strictPlatform)
  | "fail-under" => some (.option .threshold)
  | "no-color" => some (.flag .noColor)
  | "config" => some (.option .settingsPath)
  | "verbose" => some (.flag .verbose)
  | "quiet" => some (.flag .quiet)
  | "help" => some (.flag .help)
  | "version" => some (.flag .version)
  | _ => none

def ofLetter? : Char → Option Switch
  | 'f' => some (.option .format)
  | 'c' => some (.option .settingsPath)
  | 'v' => some (.flag .verbose)
  | 'q' => some (.flag .quiet)
  | 'h' => some (.flag .help)
  | 'V' => some (.flag .version)
  | _ => none

end Switch

/-- A score from zero to a hundred in digits, after an optional sign. -/
def threshold? (value : Text) : Option Nat :=
  let (negative, digits) :=
    match value with
    | '-' :: rest => (true, rest)
    | '+' :: rest => (false, rest)
    | _ => (false, value)
  if digits ≠ [] && digits.all Char.isDigit then
    let n := Nat.ofDigitChars 10 digits 0
    if n ≤ 100 && !(negative && n != 0) then some n else none
  else none

namespace CommandLine

def isFilled (c : CommandLine) : Slot → Bool
  | .path => c.path.isSome
  | .format => c.format.isSome
  | .linterBinary => c.linterBinary.isSome
  | .platform => c.platform.isSome
  | .threshold => c.threshold.isSome
  | .settingsPath => c.settingsPath.isSome

/-- Whether a flag has been raised. The verbose flag counts anew each time, and
the last two end the reading. -/
def isRaised (c : CommandLine) : Flag → Bool
  | .noLinter => c.noLinter
  | .strictPlatform => c.strictPlatform
  | .noColor => c.noColor
  | .quiet => c.quiet
  | .verbose => false
  | .help => false
  | .version => false

def fill (c : CommandLine) (slot : Slot) (value : String) : Except Halt CommandLine :=
  match slot with
  | .path =>
    if value = "" then .error .invalidValue else .ok { c with path := some value }
  | .format =>
    match OutputFormat.ofName? value with
    | some format => .ok { c with format := some format }
    | none => .error .invalidValue
  | .linterBinary => .ok { c with linterBinary := some value }
  | .platform => .ok { c with platform := some value }
  | .threshold =>
    match threshold? value.toList with
    | some threshold => .ok { c with threshold := some threshold }
    | none => .error .outOfRange
  | .settingsPath =>
    if value = "" then .error .invalidValue else .ok { c with settingsPath := some value }

/-- Give a slot its value. -/
def give (c : CommandLine) (slot : Slot) (value : String) : Except Halt CommandLine :=
  if c.isFilled slot then .error .repeated else c.fill slot value

/-- Raise a flag. The verbose flag counts up to 255. -/
def raise (c : CommandLine) (flag : Flag) : Except Halt CommandLine :=
  if c.isRaised flag then .error .repeated
  else
    match flag with
    | .noLinter => .ok { c with noLinter := true }
    | .strictPlatform => .ok { c with strictPlatform := true }
    | .noColor => .ok { c with noColor := true }
    | .verbose => .ok { c with verbosity := min 255 (c.verbosity + 1) }
    | .quiet => .ok { c with quiet := true }
    | .help => .error .help
    | .version => .error .version

structure Reading where
  line : CommandLine
  /-- A slot whose value has not been looked at, and the value if it has
  come. -/
  pending : Option (Slot × Option String)
  /-- Whether a path has been met. -/
  hasPath : Bool
  /-- Whether all further arguments are paths. -/
  onlyPaths : Bool
  deriving DecidableEq, Repr

namespace Reading

def start : Reading :=
  { line := .empty, pending := none, hasPath := false, onlyPaths := false }

/-- Look at the value that has not been looked at. -/
def settle (r : Reading) : Except Halt Reading :=
  match r.pending with
  | none => .ok r
  | some (_, none) => .error .invalidValue
  | some (slot, some value) =>
    (r.line.give slot value).map (fun line => { r with line, pending := none })

/-- Meet a flag. -/
def raise (r : Reading) (flag : Flag) : Except Halt Reading :=
  r.settle.bind fun r => (r.line.raise flag).map (fun line => { r with line })

/-- Meet an option with its value. -/
def give (r : Reading) (slot : Slot) (value : Text) : Except Halt Reading :=
  r.settle.bind fun r =>
    (r.line.give slot (String.ofList value)).map (fun line => { r with line })

/-- Meet an option whose value is in the next argument. -/
def await (r : Reading) (slot : Slot) : Except Halt Reading :=
  r.settle.map (fun r => { r with pending := some (slot, none) })

/-- Meet a path. -/
def place (r : Reading) (path : Text) : Except Halt Reading :=
  if r.hasPath then .error .unknownArgument
  else r.settle.map fun r =>
    { r with pending := some (.path, some (String.ofList path)), hasPath := true }

/-- Meet a long name, which may be followed by an equals sign and a value. -/
def long (r : Reading) (s : Text) : Except Halt Reading :=
  let name := s.takeWhile (· != '=')
  match Switch.ofName? name, s.dropWhile (· != '=') with
  | none, _ => .error .unknownArgument
  | some (.flag flag), [] => r.raise flag
  | some (.flag _), _ => .error .unwantedValue
  | some (.option slot), [] => r.await slot
  | some (.option slot), _ :: value => r.give slot value

/-- Meet short names. Flags may stand together; an option takes what follows it,
without an equals sign in front, as its value. -/
def short : Text → Reading → Except Halt Reading
  | [], r => .ok r
  | c :: rest, r =>
    match Switch.ofLetter? c with
    | none => .error .unknownArgument
    | some (.flag flag) => (r.raise flag).bind (short rest)
    | some (.option slot) =>
      match rest with
      | [] => r.await slot
      | '=' :: value => r.give slot value
      | value => r.give slot value

/-- Meet what is no option: the value that is waited for, or a path. -/
def plain (r : Reading) (s : Text) : Except Halt Reading :=
  match r.pending with
  | some (slot, none) =>
    if r.onlyPaths then r.place s
    else .ok { r with pending := some (slot, some (String.ofList s)) }
  | _ => r.place s

/-- Meet an argument. Two dashes alone make all further arguments paths, and one
dash alone is no option. -/
def step (r : Reading) (argument : String) : Except Halt Reading :=
  let s := argument.toList
  if r.onlyPaths then r.plain s
  else
    match s with
    | ['-', '-'] => .ok { r with onlyPaths := true }
    | '-' :: '-' :: name => r.long name
    | '-' :: c :: rest => short (c :: rest) r
    | _ => r.plain s

end Reading

def read (arguments : List String) : Except Halt CommandLine :=
  ((arguments.foldlM Reading.step Reading.start).bind Reading.settle).map Reading.line

end CommandLine

end Drydock
