import TargetLint.CommandLine.Arguments
import TargetLint.Config
import TargetLint.Listing
import TargetLint.Path.Absolute
import TargetLint.Session.Event

/-!
# Running a command

Each command plays one event against a session in which nothing has happened.  What
is printed, the exit code and the text of an error are told together.
-/

namespace TargetLint
namespace CommandLine

/-- How a command ends. -/
structure Completion where
  output : String
  exitCode : Nat
  error : Option String
deriving DecidableEq, Repr, Inhabited

namespace Completion

/-- An end without error. -/
def success (output : String) : Completion :=
  ⟨output, 0, none⟩

/-- An end with an error. -/
def failure (message : String) : Completion :=
  ⟨"", 1, some message⟩

/-- The arguments were not usable. -/
def usage : Completion :=
  ⟨"", 2, none⟩

end Completion

/-- The name and version of the program. -/
def versionText : String :=
  "cogs 0.0.0\n"

/-- An overview of commands and options. -/
def helpText : String :=
  "\n".intercalate
    ["Lint the cargo target a file belongs to", "",
     "Usage: cogs [OPTIONS] <COMMAND>", "",
     "Commands:",
     "  lint     Lint the target covering FILE and print its diagnostics",
     "  run      Print (or execute) the command that runs the target covering FILE",
     "  targets  List the targets of the project containing FILE",
     "  root     Print the project root of FILE",
     "  status   Lint, then print the status line and files with problems",
     "  help     Print this message or the help of the given subcommand(s)", "",
     "Options:",
     "  -v, --verbose          Enable verbose (debug-level) logging",
     "      --config <CONFIG>  Path to a config file (default: $COGS_CONFIG or ~/.cogs/config.toml)",
     "      --cargo <CARGO>    Cargo program to use instead of the configured one",
     "  -h, --help             Print help",
     "  -V, --version          Print version", ""]

/-- An error or what comes of a value. -/
def orFailure {α : Type}
    (result : Except EventError α × Session)
    (next : α → Session → Consult Completion) :
    Consult Completion :=
  match result with
  | (.error error, _) => return .failure error.message
  | (.ok value, session) => next value session

/-- Lint the target of a file and print the diagnostics of its project. -/
def lint (project : Project) (session : Session) (file : Path) : Consult Completion := do
  orFailure (← session.checkFile project file) fun result session =>
    let diagnostics := Listing.diagnosticList project (session.snapshot project)
    return .success (diagnostics ++ Listing.resultLine result ++ "\n")

/-- Lint the target of a file and print the status of its project. -/
def status (project : Project) (session : Session) (file : Path) : Consult Completion := do
  orFailure (← session.checkFile project file) fun result session =>
    match result with
    | .nothingToDo => return .success (Listing.resultLine result ++ "\n")
    | .linted _ =>
        let stamp := (session.ledger.lastRun project.root).map TimeOfDay.stamp
        return .success (Listing.statusReport (session.overview project) file stamp)

/-- Execute a command on the terminal. -/
def execute (command : Command) : Consult Completion := do
  let shown := command.display
  match ← .question (.launch command) with
  | .exited 0 => return .success ""
  | .exited code => return .failure s!"`{shown}` exited with exit status: {code}"
  | .killed signal => return .failure s!"`{shown}` exited with signal: {signal}"
  | .notStarted => return .failure s!"failed to start `{shown}`"

/-- Print the command that runs the target of a file, or execute it. -/
def run (session : Session) (file : Path) (isExecuted : Bool) : Consult Completion := do
  orFailure (← session.command file) fun command _ =>
    if isExecuted then execute command else return .success (command.display ++ "\n")

/-- List the targets of a project. -/
def targets (project : Project) (session : Session) : Consult Completion := do
  let (found, _) ← session.catalogOf project
  return .success (Listing.targetList project found)

/-- Perform an action for a file of a project. -/
def perform
    (action : Action)
    (file : Path)
    (project : Project)
    (session : Session) :
    Consult Completion :=
  match action with
  | .lint => lint project session file
  | .run isExecuted => run session file isExecuted
  | .targets => targets project session
  | .root => return .success (project.root.text ++ "\n")
  | .status => status project session file

/-- The settings with the program that was given, if one was. -/
def overrideProgram (settings : Settings) : Option String → Except InvalidSettings Settings
  | some program => settings.setProgram program
  | none => .ok settings

/-- Perform an action for a file in a new session. -/
def performFor (settings : Settings) (action : Action) (file : Path) : Consult Completion := do
  let directory ← .question .currentDirectory
  match Path.anchored? directory file with
  | none => return .failure s!"invalid path {file.text}"
  | some path =>
      orFailure (← (Session.start settings).findProject path) (perform action path)

/-- Run a command line. -/
def respond (arguments : List String) : Consult Completion :=
  match Request.ofArguments arguments with
  | .usage => return .usage
  | .help => return .success helpText
  | .version => return .success versionText
  | .perform options action file => do
      match ← Config.settings options.config with
      | .error _ => return .failure "loading config"
      | .ok settings =>
          match overrideProgram settings options.program with
          | .error _ => return .failure "--cargo"
          | .ok settings => performFor settings action file

end CommandLine
end TargetLint
