import Std.Time.Format
import Std.Time.Zoned
import Reckoner.Command.Basic

/-!
# The program

Connects the command with the arguments, the files and the streams of the system.
-/

namespace Reckoner.Terminal

/-- The time stamp of a debug record. -/
def timeStamp : IO String := do
  return (← Std.Time.PlainDateTime.now).format "uuuu-MM-dd HH:mm:ss,SSS"

/-- Writes pieces of output to their streams. -/
def write (outputs : List Output) : IO Unit := do
  let standard ← IO.getStdout
  let error ← IO.getStderr
  for output in outputs do
    match output with
    | .text content => standard.putStr content
    | .complaint content => error.putStr content
    | .record event => error.putStr (Output.recordLine (← timeStamp) event)
  standard.flush

/-- The number of a system error, which may be given negated in 32 bits. -/
def errorNumber (code : UInt32) : Nat :=
  if Nat.pow 2 31 ≤ code.toNat then Nat.pow 2 32 - code.toNat else code.toNat

/-- The cause of a failed attempt to read a file, by the number of the error. -/
def causeOf (code : UInt32) (details : String) : Command.FileError :=
  match errorNumber code with
  | 2 => .missing
  | 13 => .other 13 "Permission denied"
  | 20 => .notFolder
  | 21 => .isFolder
  | 36 => .nameTooLong
  | n => .other n details

/-- The cause of a failed attempt to read a file. -/
def fileError : IO.Error → Command.FileError
  | .noFileOrDirectory _ code details => causeOf code details
  | .inappropriateType _ code details => causeOf code details
  | .invalidArgument _ code details => causeOf code details
  | .permissionDenied _ code details => causeOf code details
  | .otherError code details => causeOf code details
  | e => .other 5 (toString e)

/-- The bytes of a file. -/
def readFile (path : String) : IO (Except Command.FileError (List UInt8)) := do
  try
    return .ok (← IO.FS.readBinFile path).toList
  catch e =>
    return .error (fileError e)

/-- Holds a session with whoever types at the standard input. -/
partial def converse (session : Session) : IO Unit := do
  write [.text Session.prompt]
  let line ← (← IO.getStdin).getLine
  match Session.inputLines line with
  | [] => write [.text "\n", .line Session.farewell]
  | line :: _ =>
    let reply := session.respond line
    write reply.outputs
    unless reply.leaving do converse reply.session

/-- Carries out a plan. -/
def carryOut (plan : Command.Plan) : IO Command.Ending := do
  match plan with
  | .answer outputs ending =>
    write outputs
    return ending
  | .session verbose recording =>
    write [.line Session.greeting]
    converse (Session.start verbose recording)
    return .returned
  | .job job recording =>
    let content ← if job.literal then pure (.error .missing) else readFile job.source
    let (outputs, ending) := Command.runJob job recording fun _ => content
    write outputs
    return ending

end Reckoner.Terminal

open Reckoner in
/-- Runs the command with the given arguments. -/
def main (arguments : List String) : IO UInt32 := do
  let level? ← IO.getEnv "TALLY_LOG_LEVEL"
  match ← Terminal.carryOut (Command.Plan.ofArguments arguments level?) with
  | .returned => return 0
  | .exited status => return UInt32.ofNat status
  | .broken message =>
    Terminal.write [.complaint ("ValueError: " ++ message ++ "\n")]
    return 1
