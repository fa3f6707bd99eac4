import TargetLint.Session.Basic
import TargetLint.Text.Decimal
import TargetLint.Text.Lines

/-!
# Plain-text output

What a lint led to, the diagnostics of a project, its status and its targets, as
they are printed.  Paths are shown from the root of the project.
-/

namespace TargetLint
namespace Listing

/-- The note on lines that did not decode, nothing where there are none. -/
def skippedNote (skipped : Nat) : String :=
  if skipped = 0 then
    ""
  else
    let lines := Text.counted skipped "undecodable line"
    s!" ({lines} skipped)"

/-- What a lint led to, on one line. -/
def resultLine : LintResult → String
  | .linted run =>
      let errors := Text.counted run.errors "error"
      let warnings := Text.counted run.warnings "warning"
      let files := Text.counted run.files "file"
      s!"Linted {run.target.display}: {errors} and {warnings} in {files}" ++
        skippedNote run.skipped
  | .nothingToDo => "Nothing to lint"

/-- Lines, each with its end. -/
def printed (lines : List String) : String :=
  String.join (lines.map fun line => line ++ "\n")

/-- A diagnostic, with the further lines of its message indented. -/
def diagnosticBlock (project : Project) (diagnostic : Diagnostic) : String :=
  let path := (project.pathWithin diagnostic.path).text
  let severity := diagnostic.severity.label ++ diagnostic.codeLabel
  let message := "\n    ".intercalate (Text.lines diagnostic.message)
  s!"{path}:{diagnostic.region.display}: {severity}: {message}"

/-- The diagnostics of a snapshot, file by file. -/
def diagnosticList (project : Project) (snapshot : Snapshot) : String :=
  printed ((snapshot.files.flatMap Prod.snd).map (diagnosticBlock project))

/-- A file with errors or warnings, on one line. -/
def problemLine (file : ProblemFile) : String :=
  s!"  {file.label}:{file.anchor.display}  {file.counts}"

/-- The status of the file that is looked at, the time of the last lint and the problem files. -/
def statusReport (overview : Overview) (current : Path) (stamp : Option String) : String :=
  let suffix := (stamp.map fun text => "  " ++ text).getD ""
  printed ((overview.statusLine current ++ suffix) :: overview.problems.map problemLine)

/-- A target in columns: kind, name and entry. -/
def targetLine (project : Project) (target : Target) : String :=
  let kind := Text.padRight 8 target.kind.label
  let name := Text.padRight 24 target.name
  s!"{kind} {name} {(project.pathWithin target.entry).text}"

/-- The targets of a project, one on a line. -/
def targetList (project : Project) (targets : List Target) : String :=
  printed (targets.map (targetLine project))

end Listing
end TargetLint
