import TargetLint.Session.Basic

/-!
# Events of a session

What a session does for each event that an editor can send, all events as one step
function, and the run of a session over a list of events.  Each event of a run has a
host of its own, because files change and the build tool answers differently from
time to time.
-/

namespace TargetLint

/-- What an editor can send to a session. -/
inductive SessionEvent where
  | lint (path : Path)
  | save (path : Path)
  | activate (path : Path)
  | run (path : Path)
  | targets (path : Path)
  | project (path : Path)
  | clear (path : Path)
deriving DecidableEq, Repr

/-- What a session answers to an event; no lint may have been called for. -/
inductive SessionAnswer where
  | lint (result : Except EventError (Option LintResult))
  | command (result : Except EventError Command)
  | targets (result : Except EventError (List Target))
  | project (result : Except EventError Project)
  | cleared (result : Except EventError Nat)

namespace Session

/-- Lint the target that serves a path. -/
def lint
    (session : Session)
    (path : Path) :
    Consult (Except EventError LintResult × Session) :=
  session.withProject path fun project session =>
    session.checkFile project path

/-- A lint that was called for. -/
def calledFor
    (result : Except EventError LintResult × Session) :
    Except EventError (Option LintResult) × Session :=
  (result.1.map some, result.2)

/-- The path names a manifest. -/
def isManifest (session : Session) (path : Path) : Bool :=
  path.fileName? = some session.settings.manifest

/-- The path names a source file. -/
def isSource (path : Path) : Bool :=
  path.extension? = some "rs"

/--
Lint after a save, if that is wanted and the file can matter to a build.  A saved manifest makes
the session forget the targets of its project first.
-/
def save
    (session : Session)
    (path : Path) :
    Consult (Except EventError (Option LintResult) × Session) :=
  let isManifest := session.isManifest path
  if session.settings.lintOnSave && (isManifest || isSource path) then
    session.withProject path fun project session => do
      let session := if isManifest then session.forgetCatalog project else session
      return calledFor (← session.checkFile project path)
  else
    return (.ok none, session)

/-- The target other than a library that starts at a path. -/
def ownTarget? (targets : List Target) (path : Path) : Option Target :=
  targets.find? fun target => decide (target.entry.Same path) && !target.isLibrary

/-- Lint the target that starts at a path, if it is no library and has not been linted. -/
def checkOwnTarget
    (session : Session)
    (project : Project)
    (path : Path) :
    Consult (Except EventError (Option LintResult) × Session) := do
  let (targets, session) ← session.catalogOf project
  match ownTarget? targets path with
  | some target =>
      if session.ledger.hasLinted target then
        return (.ok none, session)
      else
        return calledFor (← session.checkTarget project target)
  | none => return (.ok none, session)

/--
Lint when a file comes into view and results are missing: the project has not been linted, or
the file is the entry of a target other than a library that has not been.
-/
def activate
    (session : Session)
    (path : Path) :
    Consult (Except EventError (Option LintResult) × Session) := do
  match ← session.findProject path with
  | (.error _, session) => return (.ok none, session)
  | (.ok project, session) =>
      let (isLinted, session) ← session.hasResults project
      if isLinted then
        session.checkOwnTarget project path
      else
        return calledFor (← session.checkFile project path)

/-- The command that runs the target that serves a path. -/
def command
    (session : Session)
    (path : Path) :
    Consult (Except EventError Command × Session) :=
  session.withProject path fun project session => do
    let (targets, session) ← session.catalogOf project
    match Choice.forFile? path targets .run with
    | some choice => return (.ok (BuildCommand.run session.settings choice.target), session)
    | none => return (.error (.noTarget path), session)

/-- The targets of the project of a path. -/
def targets
    (session : Session)
    (path : Path) :
    Consult (Except EventError (List Target) × Session) :=
  session.withProject path fun project session => do
    let (targets, session) ← session.catalogOf project
    return (.ok targets, session)

/-- Drop the diagnostics of the project of a path and tell how many files had any. -/
def clear
    (session : Session)
    (path : Path) :
    Consult (Except EventError Nat × Session) :=
  session.withProject path fun project session =>
    return (.ok (session.ledger.clearCount project),
      { session with ledger := session.ledger.clear project })

/-- The answer to an event and the session after it. -/
def step (session : Session) : SessionEvent → Consult (SessionAnswer × Session)
  | .lint path => do
      let (result, session) := calledFor (← session.lint path)
      return (.lint result, session)
  | .save path => do
      let (result, session) ← session.save path
      return (.lint result, session)
  | .activate path => do
      let (result, session) ← session.activate path
      return (.lint result, session)
  | .run path => do
      let (result, session) ← session.command path
      return (.command result, session)
  | .targets path => do
      let (result, session) ← session.targets path
      return (.targets result, session)
  | .project path => do
      let (result, session) ← session.findProject path
      return (.project result, session)
  | .clear path => do
      let (result, session) ← session.clear path
      return (.cleared result, session)

/-- An event with the host that is there when it comes. -/
structure Occurrence where
  host : Host
  event : SessionEvent

/-- The session after an event. -/
def after (session : Session) (occurrence : Occurrence) : Session :=
  ((session.step occurrence.event).value occurrence.host).2

/-- The answer to an event. -/
def answer (session : Session) (occurrence : Occurrence) : SessionAnswer :=
  ((session.step occurrence.event).value occurrence.host).1

/-- The session after a list of events. -/
def afterAll (session : Session) (history : List Occurrence) : Session :=
  history.foldl after session

end Session
end TargetLint
