import TargetLint.BuildCommand
import TargetLint.Catalog
import TargetLint.Consult

/-!
# Asking the build tool

What a session learns from the build tool by running it: the targets of a project
and how the tool checks a target.
-/

namespace TargetLint
namespace BuildTool

/-- The targets that the tool lists for a project. -/
def listing
    (program manifest : String)
    (project : Project) :
    Consult (Except Metadata.Failure (List Metadata.Descriptor)) := do
  let reply ← .question (.capture (BuildCommand.metadata program project))
  return Metadata.ofReply manifest project reply

/-- The catalog of a project. -/
def targets (settings : Settings) (project : Project) : Consult (List Target) := do
  let listed ← listing settings.program settings.manifest project
  return Catalog.ofListing project listed

/-- The mode that a reply to the question for the version calls for. -/
def modeOfReply (reply : RunReply) : CheckMode :=
  match reply with
  | .ok output => .ofVersionText output.stdout
  | .error _ => .check

/-- How the tool checks a target. -/
def mode (settings : Settings) (project : Project) : Consult CheckMode := do
  let reply ← .question (.capture (BuildCommand.version settings project))
  return modeOfReply reply

end BuildTool
end TargetLint
