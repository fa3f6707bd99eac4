import TargetLint.CheckMode
import TargetLint.Command
import TargetLint.Project
import TargetLint.Settings
import TargetLint.Target

/-!
# Commands of the build tool

The commands that lint a target and that run it, and those that ask the tool about
itself and about a project.
-/

namespace TargetLint
namespace BuildCommand

/-- The arguments that name the manifest, needed only for an unusual one. -/
def manifestArguments (settings : Settings) (target : Target) : List String :=
  if settings.manifest = Settings.default.manifest then
    []
  else
    ["--manifest-path", ((Project.mk target.root).manifestFile settings.manifest).text]

/-- The arguments that make the tool print its messages as JSON records. -/
def formatArguments : List String :=
  ["--message-format", "json"]

/-- The arguments of a lint. -/
def lintArguments (settings : Settings) (mode : CheckMode) (target : Target) : List String :=
  let further := manifestArguments settings target ++ settings.extraArguments
  match mode with
  | .check => "check" :: formatArguments ++ target.selector ++ further
  | .withoutCode =>
      "rustc" :: target.selector ++ formatArguments ++ further ++ ["--", "-Zno-trans"]

/-- The command that lints a target. -/
def lint (settings : Settings) (mode : CheckMode) (target : Target) : Command :=
  ⟨settings.program, lintArguments settings mode target, target.root⟩

/-- What is done to run a target; a library can only be built. -/
def runVerb : TargetKind → String
  | .binary => "run"
  | .example => "run"
  | .library => "build"
  | .test => "test"

/-- The command that runs a target. -/
def run (settings : Settings) (target : Target) : Command :=
  ⟨settings.program,
    runVerb target.kind :: target.selector ++ manifestArguments settings target,
    target.root⟩

/-- The command that prints the tool's version. -/
def version (settings : Settings) (project : Project) : Command :=
  ⟨settings.program, ["--version"], project.root⟩

/-- The command that prints the metadata of a project. -/
def metadata (program : String) (project : Project) : Command :=
  ⟨program, ["metadata", "--no-deps", "--format-version", "1"], project.root⟩

end BuildCommand
end TargetLint
