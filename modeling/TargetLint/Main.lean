import Std.Time.DateTime.Timestamp
import TargetLint.CommandLine.Relay
import TargetLint.CommandLine.Run

/-!
# The program

Performs a command line with the files, the environment and the clock of this
machine.  Commands are relayed: the request goes to the standard error, the reply is
read from the standard input.  The clock is read in universal time, and the home
directory is the one that the environment names.
-/

namespace TargetLint
namespace CommandLine

/-- The time of day of a number of seconds since midnight of some day. -/
def timeOfSeconds (seconds : Nat) : TimeOfDay :=
  ⟨seconds / 3600 % 24, seconds / 60 % 60, seconds % 60⟩

/-- Something exists at a path. -/
def pathExists (path : Path) : IO Bool := do
  if path.text = "" then
    return false
  else
    ((← IO.currentDir) / path.text).pathExists

/-- A directory exists at a path. -/
def isDirectory (path : Path) : IO Bool := do
  if path.text = "" then
    return false
  else
    ((← IO.currentDir) / path.text).isDir

/-- The text of a file; absent where the file cannot be read as text. -/
def readText (path : Path) : IO (Option String) := do
  try
    return some (← IO.FS.readFile path.text)
  catch _ =>
    return none

/-- Relay a command and wait for the reply. -/
def relay (command : Command) : IO RunReply := do
  IO.eprintln (Relay.request command)
  let line ← (← IO.getStdin).getLine
  return Relay.reply command line

/-- The answers of this machine. -/
def answer : (question : Question) → IO question.Answer
  | .fileExists path => pathExists path
  | .isDirectory path => isDirectory path
  | .readText path => readText path
  | .variable name => IO.getEnv name
  | .currentDirectory => do
      return ⟨(← IO.currentDir).toString⟩
  | .homeDirectory => do
      return ((← IO.getEnv "HOME").filter (· ≠ "")).map Path.mk
  | .timeOfDay => do
      let now ← Std.Time.Timestamp.now
      return timeOfSeconds now.toSecondsSinceUnixEpoch.val.toNat
  | .capture command => relay command
  | .launch command => do
      let reply ← relay command
      let (output, errors) := Relay.printed reply
      IO.print output
      IO.eprint errors
      return Relay.launchResult reply

end CommandLine
end TargetLint

open TargetLint in
/-- Perform the command line, print what it gives and end with its exit code. -/
def main (arguments : List String) : IO UInt32 := do
  let completion ← (CommandLine.respond arguments).perform CommandLine.answer
  IO.print completion.output
  match completion.error with
  | some error => IO.eprintln s!"Error: {error}"
  | none => if completion = .usage then IO.eprint CommandLine.helpText
  return UInt32.ofNat completion.exitCode
