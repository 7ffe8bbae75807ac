import FactGraph.CommandLine.Run
import Std.Time.DateTime

/-!
# The program

Runs a command line on the files of the machine.
-/

namespace FactGraph

/-- The outcome of an action that fails where a file cannot be used. -/
def attempt {α : Type} (action : IO α) : IO (Option α) := do
  match ← action.toBaseIO with
  | .ok a => return some a
  | .error _ => return none

/-- What is at a path of the machine. -/
def readAt (path : String) : IO (Option FileContent) := do
  match ← attempt (IO.FS.Handle.mk path .read) with
  | none => return none
  | some handle =>
    match ← attempt handle.readBinToEnd with
    | some bytes => return some (.file bytes.data.toList)
    | none => return some .directory

/-- Writes a file of the machine. -/
def writeAt (path : String) (bytes : List UInt8) : IO WriteOutcome := do
  match ← (IO.FS.writeBinFile path bytes.toByteArray).toBaseIO with
  | .ok () => return .stored
  | .error (.resourceExhausted ..) => return .noRoom
  | .error _ => return .refused

/-- The files of the machine whose paths are texts. What is printed comes in its order. -/
def machineFiles : FileSystem IO where
  read path := do
    match String.fromUTF8? path.toByteArray with
    | some "/dev/null" | some "/dev/full" => return some .device
    | some path => readAt path
    | none => return none
  write path bytes := do
    match String.fromUTF8? path.toByteArray with
    | some "/dev/stdout" => return .printed
    | some "/dev/stderr" => return .printedToErrors
    | some path => writeAt path bytes
    | none => return .refused
  remove path := do
    if let some path := String.fromUTF8? path.toByteArray then
      let _ ← attempt (IO.FS.removeFile path)

/-- The present time as it is recorded: date and time of day, without zone. -/
def presentTime : IO String := do
  let time := Std.Time.DateTime.ofTimestampWithZone (← Std.Time.Timestamp.now) .UTC
  let two (n : Int) : String := (if n < 10 then "0" else "") ++ toString n
  return toString time.year.toInt ++ "-" ++ two time.month.toInt ++ "-" ++ two time.day.toInt
    ++ " " ++ two time.hour.toInt ++ ":" ++ two time.minute.toInt ++ ":" ++ two time.second.toInt

end FactGraph

/-- Prints what the run printed and ends with its code. -/
def main (args : List String) : IO UInt32 := do
  let result ← FactGraph.Invocation.run FactGraph.machineFiles (← FactGraph.presentTime) args
  result.printed.output.forM IO.println
  result.printed.errors.forM IO.eprintln
  return UInt32.ofNat result.code
