import Drydock.CommandLine.Program
import Std.Time.DateTime.Timestamp

/-! The program. It starts no other programs, so a linter counts as one that is
missing. -/
namespace Drydock.Main

/-- The reason for which the system refused a file. -/
def fileError : IO.Error → FileError
  | .noFileOrDirectory .. => .notFound
  | .inappropriateType _ code _ => if code = 21 then .isDirectory else .notADirectory
  | e => .other (toString e)

def readFile (path : Text) : IO (Except FileError (List UInt8)) := do
  try
    return .ok (← IO.FS.readBinFile (String.ofList path)).toList
  catch e => return .error (fileError e)

/-- The bytes that are still to come from a stream, after those that have
come. -/
partial def readRest (stream : IO.FS.Stream) (bytes : ByteArray) : IO ByteArray := do
  let more ← stream.read 65536
  if more.isEmpty then return bytes else readRest stream (bytes ++ more)

def host : Host IO :=
  { readFile
    isPresent := fun path => do
      match ← readFile path with
      | .error .notFound => return false
      | .error .notADirectory => return false
      | _ => return true
    readInput := do return (← readRest (← IO.getStdin) .empty).toList
    home? := do return (← IO.getEnv "HOME").map String.toList
    launch := fun _ _ _ => return .error .notFound
    isTerminal := do (← IO.getStdout).isTty
    now := do
      let nanos := (← Std.Time.Timestamp.now).toNanosecondsSinceUnixEpoch.toInt
      return { seconds := nanos / 1000000000, nanos := (nanos % 1000000000).toNat } }

end Drydock.Main

open Drydock in
/-- Run the program: messages go to the standard error, the report to the
standard output. -/
def main (arguments : List String) : IO UInt32 := do
  let exit ← runProgram Main.host arguments
  IO.print (String.ofList exit.output)
  IO.eprint (String.ofList exit.errorStream)
  if exit.status = 2 then IO.eprint Exit.usage
  return UInt32.ofNat exit.status
