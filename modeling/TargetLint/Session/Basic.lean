import TargetLint.BuildTool
import TargetLint.LintLedger
import TargetLint.Overview
import TargetLint.ProjectSearch
import TargetLint.StreamReport

/-!
# Sessions

A session answers the events of an editor.  It remembers the projects it found, the
targets of each project, how the build tool checks and the results of every lint.
Targets are listed once per project, until the project's manifest is saved; the tool
is asked for its version once, before the first lint.
-/

namespace TargetLint

/-- Why an event cannot be answered. -/
inductive EventError where
  | noProject (error : NoManifest)
  | noTarget (path : Path)
  | notRun (error : StartError)
deriving DecidableEq, Repr, Inhabited

/-- The text of an error. -/
def EventError.message : EventError → String
  | noProject error => error.message
  | noTarget path => s!"no target to run for {path.text}"
  | notRun error => error.message

/-- The counts of a lint run: files with diagnostics, errors, warnings, lines not decoded. -/
structure LintRun where
  target : Target
  files : Nat
  errors : Nat
  warnings : Nat
  skipped : Nat
deriving DecidableEq, Repr, Inhabited

/-- What a request to lint led to. -/
inductive LintResult where
  | linted (run : LintRun)
  | nothingToDo
deriving DecidableEq, Repr, Inhabited

/-- The counts of a report on a target's run. -/
def LintRun.ofReport (target : Target) (report : StreamReport) : LintRun :=
  { target := target
    files := report.diagnostics.size
    errors := report.diagnostics.countOf .error
    warnings := report.diagnostics.countOf .warning
    skipped := report.skipped.length }

/-- The state of an editor session, with the targets that have been listed and the known mode. -/
structure Session where
  settings : Settings
  memory : SearchMemory
  catalogs : PathTable (List Target)
  mode : Option CheckMode
  ledger : LintLedger
deriving Inhabited

namespace Session

/-- A session in which nothing has happened. -/
def start (settings : Settings) : Session :=
  { settings := settings
    memory := .empty
    catalogs := .empty
    mode := none
    ledger := .empty }

/-- The session with a given mode, so that the tool is not asked for its version. -/
def withMode (session : Session) (mode : CheckMode) : Session :=
  { session with mode := some mode }

/-- The overview of a project. -/
def overview (session : Session) (project : Project) : Overview :=
  .ofView session.ledger.view project

/-- The snapshot of a project. -/
def snapshot (session : Session) (project : Project) : Snapshot :=
  session.ledger.view.snapshot project.root

/-- The project of a path. -/
def findProject
    (session : Session)
    (path : Path) :
    Consult (Except EventError Project × Session) := do
  let (found, memory) ← ProjectSearch.locate session.settings.manifest session.memory path
  return (found.mapError .noProject, { session with memory := memory })

/-- Go on with the project of a path, if it has one. -/
def withProject
    {α : Type}
    (session : Session)
    (path : Path)
    (next : Project → Session → Consult (Except EventError α × Session)) :
    Consult (Except EventError α × Session) := do
  match ← session.findProject path with
  | (.error error, session) => return (.error error, session)
  | (.ok project, session) => next project session

/-- The targets of a project, listed now if they have not been. -/
def catalogOf
    (session : Session)
    (project : Project) :
    Consult (List Target × Session) :=
  match session.catalogs.get? project.root with
  | some targets => return (targets, session)
  | none => do
      let targets ← BuildTool.targets session.settings project
      return (targets, { session with catalogs := session.catalogs.set project.root targets })

/-- The session without the listed targets of a project. -/
def forgetCatalog (session : Session) (project : Project) : Session :=
  { session with catalogs := session.catalogs.erase project.root }

/-- How targets are checked, found out now if it is not known. -/
def findMode
    (session : Session)
    (project : Project) :
    Consult (CheckMode × Session) :=
  match session.mode with
  | some mode => return (mode, session)
  | none => do
      let mode ← BuildTool.mode session.settings project
      return (mode, session.withMode mode)

/-- The report on a stream, with the host telling which files exist. -/
def readStream
    (settings : Settings)
    (project : Project)
    (text : String) :
    Consult StreamReport := do
  let stream := MessageStream.ofText text
  let existing ← Consult.filter (fun path => .question (.fileExists path)) (stream.places project)
  let files : ProjectFiles := ⟨project, settings.manifest, fun path => existing.contains path⟩
  return StreamReport.ofStream files stream

/-- Check a target of a project and keep the results. -/
def checkTarget
    (session : Session)
    (project : Project)
    (target : Target) :
    Consult (Except EventError LintResult × Session) := do
  let (mode, session) ← session.findMode project
  match ← .question (.capture (BuildCommand.lint session.settings mode target)) with
  | .error error => return (.error (.notRun error), session)
  | .ok output =>
      let report ← readStream session.settings project output.stdout
      let time ← .question .timeOfDay
      return (.ok (.linted (.ofReport target report)),
        { session with ledger := session.ledger.enter target report.diagnostics time })

/-- Check the target of a project that serves a path. -/
def checkFile
    (session : Session)
    (project : Project)
    (path : Path) :
    Consult (Except EventError LintResult × Session) := do
  let (targets, session) ← session.catalogOf project
  match Choice.forFile? path targets .lint with
  | some choice => session.checkTarget project choice.target
  | none => return (.ok .nothingToDo, session)

/-- The project's main target for linting, or any target where there is none, has results. -/
def hasResults
    (session : Session)
    (project : Project) :
    Consult (Bool × Session) := do
  let (targets, session) ← session.catalogOf project
  match Choice.forFile? project.root targets .lint with
  | some choice => return (session.ledger.hasLinted choice.target, session)
  | none => return (session.ledger.hasAnyRun project.root, session)

end Session
end TargetLint
