import TargetLint.Path.Basic
import TargetLint.Text.Blank

/-!
# Commands

A command is a program with arguments and the directory in which it runs.  It is
shown the way it would be typed, with single quotes around an argument that is empty
or holds a blank.
-/

namespace TargetLint

/-- A program to run with arguments in a directory. -/
structure Command where
  program : String
  arguments : List String
  directory : Path
deriving DecidableEq, Repr, Inhabited

namespace Command

/-- The argument has to be quoted to be seen as one. -/
def needsQuotes (argument : String) : Bool :=
  argument.isEmpty || argument.toList.any Text.isBlank

/-- An argument as it is shown. -/
def displayArgument (argument : String) : String :=
  if needsQuotes argument then s!"'{argument}'" else argument

/-- The program and its arguments with blanks between them. -/
def display (command : Command) : String :=
  " ".intercalate (command.program :: command.arguments.map displayArgument)

end Command

/-- What a finished process left behind; it has no exit code where a signal ended it. -/
structure RunOutput where
  stdout : String
  stderr : String
  status : Option Int
deriving DecidableEq, Repr, Inhabited

/-- The process ended with code zero. -/
def RunOutput.succeeded (output : RunOutput) : Bool :=
  output.status = some 0

/-- Why a process could not be run. -/
inductive StartError where
  | unknownProgram (program : String)
  | refused (program reason : String)
deriving DecidableEq, Repr, Inhabited

/-- The text of an error. -/
def StartError.message : StartError → String
  | unknownProgram program => s!"{program} not found in PATH"
  | refused program reason => s!"failed to spawn {program}: {reason}"

/-- What running a command leads to. -/
abbrev RunReply :=
  Except StartError RunOutput

end TargetLint
