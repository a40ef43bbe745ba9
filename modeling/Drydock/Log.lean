import Drydock.Text.ControlSequence
import Drydock.Text.Lines

/-! The log of a run, as it is written to a stream of text. A record begins with
its level in brackets and ends with a line end. What would steer a terminal is
left out of its message, and with it, where a sequence has no end, all that
follows. Such a record leaves its line open, so that the next one does not begin
a line and cannot be told from its message. -/
namespace Drydock

/-- How much a message matters. -/
inductive LogLevel where
  | warning
  | info
  | debug
  deriving DecidableEq, Repr

namespace LogLevel

def name : LogLevel → String
  | .warning => "WARN"
  | .info => "INFO"
  | .debug => "DEBUG"

def all : List LogLevel := [.warning, .info, .debug]

/-- How often a command line has to ask for messages to see those of a level. -/
def depth : LogLevel → Nat
  | .warning => 0
  | .info => 1
  | .debug => 2

def heading (level : LogLevel) : Text :=
  ("[" ++ level.name ++ "] ").toList

end LogLevel

structure LogRecord where
  level : LogLevel
  message : String
  deriving DecidableEq, Repr

namespace LogRecord

def indented (r : LogRecord) : Text :=
  Text.join "\n    ".toList (Text.splitAt '\n' r.message.toList)

/-- The record as it is written. -/
def text (r : LogRecord) : Text :=
  r.level.heading ++ ControlSequence.plain (r.indented ++ ['\n'])

end LogRecord

namespace Log

/-- Records as they are written, one after the other. -/
def text (records : List LogRecord) : Text :=
  (records.map LogRecord.text).flatten

/-- The record that a line begins. -/
def entry? (line : Text) : Option (LogLevel × Text) :=
  LogLevel.all.findSome? fun level =>
    (Text.after? level.heading line).map (fun message => (level, message))

/-- The records that can be told from what was written, each with the first line
of its message. -/
def entries (written : Text) : List (LogLevel × Text) :=
  (Text.lines written).filterMap entry?

end Log

end Drydock
