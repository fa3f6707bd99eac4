import TargetLint.DiagnosticView
import TargetLint.Project
import TargetLint.Target
import TargetLint.TimeOfDay

/-!
# Results of the lints of a session

The ledger keeps the current diagnostics and, per project, what has been linted.  A
library run visits every module of the library, so it takes the place of all that
the last library run reported.  Other targets only bring their own files.
-/

namespace TargetLint

/--
What has been linted of a project: the files that the last library run reported on, unless they
have been cleared since, and the entries of the other targets that have been linted.
-/
structure ProjectRecord where
  libraryFiles : List Path
  entries : List Path
  hasLibraryRun : Bool
  lastRun : Option TimeOfDay
deriving DecidableEq, Repr

namespace ProjectRecord

/-- Nothing has been linted. -/
def empty : ProjectRecord :=
  ⟨[], [], false, none⟩

instance : Inhabited ProjectRecord :=
  ⟨empty⟩

/-- The path is the entry of a linted target that is no library. -/
def hasEntry (record : ProjectRecord) (path : Path) : Bool :=
  record.entries.any fun entry => entry.Same path

/-- The record with an entry added, unless it is there already. -/
def addEntry (record : ProjectRecord) (entry : Path) : ProjectRecord :=
  if record.hasEntry entry then record else { record with entries := record.entries ++ [entry] }

/-- The record after a run of a target that reported on the given files. -/
def afterRun
    (record : ProjectRecord)
    (target : Target)
    (files : List Path)
    (time : TimeOfDay) :
    ProjectRecord :=
  if target.isLibrary then
    { record with libraryFiles := files, hasLibraryRun := true, lastRun := some time }
  else
    { record.addEntry target.entry with lastRun := some time }

/-- The target has been linted; one library run stands for every library of the project. -/
def hasLinted (record : ProjectRecord) (target : Target) : Bool :=
  if target.isLibrary then record.hasLibraryRun else record.hasEntry target.entry

end ProjectRecord

/-- The current diagnostics and what has been linted of every project. -/
structure LintLedger where
  view : DiagnosticView
  projects : PathTable ProjectRecord
deriving Inhabited

namespace LintLedger

/-- No result yet. -/
def empty : LintLedger :=
  ⟨.empty, .empty⟩

/-- What has been linted of the project at a root. -/
def recordOf (ledger : LintLedger) (root : Path) : ProjectRecord :=
  (ledger.projects.get? root).getD .empty

/-- The files whose diagnostics a run of the target supersedes, whether it reports on them or not. -/
def superseded (ledger : LintLedger) (target : Target) : List Path :=
  if target.isLibrary then (ledger.recordOf target.root).libraryFiles else []

/-- The ledger after a run of a target with its diagnostics. -/
def enter
    (ledger : LintLedger)
    (target : Target)
    (files : DiagnosticTable)
    (time : TimeOfDay) :
    LintLedger :=
  { view := (ledger.view.dropAll (ledger.superseded target)).replaceAll files
    projects :=
      ledger.projects.set target.root
        ((ledger.recordOf target.root).afterRun target files.keys time) }

/-- The target has been linted. -/
def hasLinted (ledger : LintLedger) (target : Target) : Bool :=
  (ledger.recordOf target.root).hasLinted target

/-- Some target of the project at a root has been linted. -/
def hasAnyRun (ledger : LintLedger) (root : Path) : Bool :=
  ledger.projects.contains root

/-- The path is the entry of a target of the project at a root that is no library and was linted. -/
def hasLintedEntry (ledger : LintLedger) (root path : Path) : Bool :=
  (ledger.recordOf root).hasEntry path

/-- When the project at a root was linted last. -/
def lastRun (ledger : LintLedger) (root : Path) : Option TimeOfDay :=
  (ledger.recordOf root).lastRun

/-- The number of files that `clear` removes. -/
def clearCount (ledger : LintLedger) (project : Project) : Nat :=
  ledger.view.countWithin project.root

/-- The ledger without diagnostics in the project.  What has been linted stays linted. -/
def clear (ledger : LintLedger) (project : Project) : LintLedger :=
  { view := ledger.view.dropWithin project.root
    projects :=
      match ledger.projects.get? project.root with
      | some record => ledger.projects.set project.root { record with libraryFiles := [] }
      | none => ledger.projects }

end LintLedger
end TargetLint
