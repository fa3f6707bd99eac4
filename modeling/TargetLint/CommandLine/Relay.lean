import TargetLint.Consult
import TargetLint.Json.Reader
import TargetLint.Json.Record

/-!
# Relaying commands

The program starts no process of its own.  A command goes out as one line of text,
and whoever called the program runs it and answers with one JSON record: what the
process printed and its exit code, `null` where a signal ended it.  An answer that is
no such record says that the command's program is not known.
-/

namespace TargetLint
namespace CommandLine
namespace Relay

/-- The line that asks for a command to be run. -/
def request (command : Command) : String :=
  s!"{command.directory.text}$ {command.display}"

/-- An exit code. -/
def exitCode? : Json.Decoder Int := fun json =>
  (Json.word? json).map fun code => (code.toNat : Int)

/-- What a finished process left behind, as a record. -/
def output? : Json.Decoder RunOutput := fun json => do
  let record ← json.record? ["stdout", "stderr", "status"]
  return {
    stdout := ← record.optional? "stdout" Json.text? ""
    stderr := ← record.optional? "stderr" Json.text? ""
    status := ← record.optional? "status" (Json.nullable? exitCode?) (some 0) }

/-- The reply to a command, given the line that came back. -/
def reply (command : Command) (line : String) : RunReply :=
  match (Json.read? line).bind output? with
  | some output => .ok output
  | none => .error (.unknownProgram command.program)

/-- How a process ended that was run on the terminal. -/
def launchResult : RunReply → LaunchResult
  | .ok output =>
      match output.status with
      | some code => .exited code
      | none => .killed "unknown"
  | .error _ => .notStarted

/-- What the process printed on the standard output and on the standard error. -/
def printed : RunReply → String × String
  | .ok output => (output.stdout, output.stderr)
  | .error _ => ("", "")

end Relay
end CommandLine
end TargetLint
