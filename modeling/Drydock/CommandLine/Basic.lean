import Drydock.Path
import Drydock.Settings

/-! What a command line asks for. -/
namespace Drydock

/-- The requests of a command line; what is not given is left to the
settings. -/
structure CommandLine where
  /-- The build file. -/
  path : Option String
  format : Option OutputFormat
  /-- Whether the linter is switched off. -/
  noLinter : Bool
  linterBinary : Option String
  platform : Option String
  strictPlatform : Bool
  threshold : Option Nat
  noColor : Bool
  /-- A settings file to read in place of those in the usual places. -/
  settingsPath : Option String
  /-- How often more messages were asked for. -/
  verbosity : Nat
  /-- Whether messages are suppressed. -/
  quiet : Bool
  deriving DecidableEq, Repr

namespace CommandLine

def empty : CommandLine :=
  { path := none, format := none, noLinter := false, linterBinary := none, platform := none
    strictPlatform := false, threshold := none, noColor := false, settingsPath := none
    verbosity := 0, quiet := false }

def defaultPath : String := "Dockerfile"

/-- The path that stands for the standard input. -/
def inputMarker : String := "-"

def inputName : String := "<stdin>"

def target (c : CommandLine) : String :=
  c.path.getD defaultPath

def readsInput (c : CommandLine) : Bool :=
  c.target == inputMarker

/-- The directory that is searched for a settings file of the project. -/
def projectDirectory? (c : CommandLine) : Option Text :=
  if c.readsInput then none else some (Path.directory c.target.toList)

/-- Settings with what the command line says put in their place. -/
def applyTo (c : CommandLine) (s : Settings) : Settings :=
  { options :=
      { useLinter := s.options.useLinter && !c.noLinter
        platform := c.platform <|> s.options.platform
        strictPlatform := s.options.strictPlatform || c.strictPlatform }
    linter :=
      { s.linter with binary := c.linterBinary.getD s.linter.binary }
    output :=
      { format := c.format.getD s.output.format
        threshold := c.threshold <|> s.output.threshold } }

end CommandLine

end Drydock
