import TargetLint.LintLedger
import TargetLint.Proofs.DiagnosticView

/-!
# Operations on a ledger

A ledger changes when a run of a target is entered and when a project is cleared.
Both are put into one type, so that a history is a list.  For each operation there
is one law about what a file has afterwards and one about the library files that
are remembered for a root.
-/

namespace TargetLint

/-- An operation that changes a ledger. -/
inductive LedgerEvent where
  | enter (target : Target) (files : DiagnosticTable) (time : TimeOfDay)
  | clear (project : Project)

/-- The root whose record an operation changes. -/
def LedgerEvent.root : LedgerEvent → Path
  | enter target _ _ => target.root
  | clear project => project.root

namespace LintLedger

/-- The ledger after an operation. -/
def after (ledger : LintLedger) : LedgerEvent → LintLedger
  | .enter target files time => ledger.enter target files time
  | .clear project => ledger.clear project

/-- The ledger after a list of operations. -/
def afterAll (ledger : LintLedger) (history : List LedgerEvent) : LintLedger :=
  history.foldl after ledger

@[simp] theorem afterAll_nil (ledger : LintLedger) :
    ledger.afterAll [] = ledger :=
  rfl

theorem afterAll_append
    (ledger : LintLedger)
    (history later : List LedgerEvent) :
    ledger.afterAll (history ++ later) = (ledger.afterAll history).afterAll later :=
  List.foldl_append

@[simp] theorem afterAll_snoc
    (ledger : LintLedger)
    (history : List LedgerEvent)
    (event : LedgerEvent) :
    ledger.afterAll (history ++ [event]) = (ledger.afterAll history).after event := by
  rw [afterAll_append]
  rfl

theorem recordOf_congr
    (ledger : LintLedger)
    {p q : Path}
    (h : p.Same q) :
    ledger.recordOf p = ledger.recordOf q := by
  rw [recordOf, recordOf, ledger.projects.get?_congr h]

@[simp] theorem recordOf_empty (root : Path) :
    empty.recordOf root = .empty :=
  rfl

/-- A run is entered into the record of its root and of no other. -/
theorem recordOf_enter
    (ledger : LintLedger)
    (target : Target)
    (files : DiagnosticTable)
    (time : TimeOfDay)
    (root : Path) :
    (ledger.enter target files time).recordOf root =
      if target.root.Same root then
        (ledger.recordOf target.root).afterRun target files.keys time
      else
        ledger.recordOf root := by
  rw [recordOf, enter, PathTable.get?_set]
  by_cases hroot : target.root.Same root <;> simp [hroot, recordOf]

/-- Clearing a project makes its root forget its library files and changes no other record. -/
theorem recordOf_clear
    (ledger : LintLedger)
    (project : Project)
    (root : Path) :
    (ledger.clear project).recordOf root =
      if project.root.Same root then
        { ledger.recordOf root with libraryFiles := [] }
      else
        ledger.recordOf root := by
  unfold recordOf clear
  cases hget : ledger.projects.get? project.root with
  | none =>
      by_cases hroot : project.root.Same root
      · simp [hroot, ← ledger.projects.get?_congr hroot, hget, ProjectRecord.empty]
      · simp [hroot]
  | some record =>
      simp only [PathTable.get?_set]
      by_cases hroot : project.root.Same root
      · simp [hroot, ← ledger.projects.get?_congr hroot, hget]
      · simp [hroot]

/-- A run of a target that is no library leaves the library files as they are. -/
theorem libraryFiles_afterRun
    (record : ProjectRecord)
    (target : Target)
    (files : List Path)
    (time : TimeOfDay) :
    (record.afterRun target files time).libraryFiles =
      if target.isLibrary then files else record.libraryFiles := by
  unfold ProjectRecord.afterRun ProjectRecord.addEntry
  by_cases hlibrary : target.isLibrary = true
  · simp [hlibrary]
  · by_cases hentry : record.hasEntry target.entry = true <;> simp [hlibrary, hentry]

/-- A run is one of its root and of no other. -/
theorem hasAnyRun_enter
    (ledger : LintLedger)
    (target : Target)
    (files : DiagnosticTable)
    (time : TimeOfDay)
    (root : Path) :
    (ledger.enter target files time).hasAnyRun root =
      (decide (target.root.Same root) || ledger.hasAnyRun root) := by
  rw [hasAnyRun, enter, PathTable.contains_eq_isSome_get?, PathTable.get?_set, hasAnyRun,
    PathTable.contains_eq_isSome_get?]
  by_cases hroot : target.root.Same root <;> simp [hroot]

/-- What has been linted stays linted when a project is cleared. -/
theorem hasAnyRun_clear
    (ledger : LintLedger)
    (project : Project)
    (root : Path) :
    (ledger.clear project).hasAnyRun root = ledger.hasAnyRun root := by
  unfold hasAnyRun clear
  cases hget : ledger.projects.get? project.root with
  | none => rfl
  | some record =>
      simp only [PathTable.contains_eq_isSome_get?, PathTable.get?_set]
      by_cases hroot : project.root.Same root
      · simp [hroot, ← ledger.projects.get?_congr hroot, hget]
      · simp [hroot]

theorem hasAnyRun_after_of_hasAnyRun
    {ledger : LintLedger}
    {root : Path}
    (h : ledger.hasAnyRun root = true)
    (event : LedgerEvent) :
    (ledger.after event).hasAnyRun root = true := by
  cases event with
  | enter target files time =>
      rw [after, hasAnyRun_enter, h, Bool.or_true]
  | clear project =>
      rw [after, hasAnyRun_clear, h]

/-- An operation can only lint the root whose record it changes. -/
theorem hasAnyRun_of_hasAnyRun_after
    {ledger : LintLedger}
    {event : LedgerEvent}
    {root : Path}
    (h : (ledger.after event).hasAnyRun root = true) :
    ledger.hasAnyRun root = true ∨ event.root.Same root := by
  cases event with
  | enter target files time =>
      rw [after, hasAnyRun_enter, Bool.or_eq_true, decide_eq_true_eq] at h
      exact h.symm
  | clear project =>
      rw [after, hasAnyRun_clear] at h
      exact Or.inl h

/-- A root of which the history has a run has been linted. -/
theorem hasAnyRun_afterAll_of_mem
    {history : List LedgerEvent}
    {target : Target}
    {files : DiagnosticTable}
    {time : TimeOfDay}
    (h : .enter target files time ∈ history) :
    (empty.afterAll history).hasAnyRun target.root = true := by
  induction history using List.reverseRecOn with
  | nil => cases h
  | append_singleton history event ih =>
      rw [afterAll_snoc]
      rcases List.mem_append.1 h with hold | hlast
      · exact hasAnyRun_after_of_hasAnyRun (ih hold) event
      · rw [← List.mem_singleton.1 hlast, after, hasAnyRun_enter]
        simp

/--
After a run, the files that it reported on have what it reported, the files that it superseded
have nothing, and the others have what they had.
-/
theorem diagnosticsOf_enter
    (ledger : LintLedger)
    (target : Target)
    (files : DiagnosticTable)
    (time : TimeOfDay)
    (path : Path) :
    (ledger.enter target files time).view.diagnosticsOf path =
      (files.get? path).getD
        (if (ledger.superseded target).any (fun file => file.Same path) then
          []
        else
          ledger.view.diagnosticsOf path) := by
  rw [enter, DiagnosticView.diagnosticsOf_replaceAll, DiagnosticView.diagnosticsOf_dropAll]

theorem diagnosticsOf_clear
    (ledger : LintLedger)
    (project : Project)
    (path : Path) :
    (ledger.clear project).view.diagnosticsOf path =
      if project.covers path then [] else ledger.view.diagnosticsOf path := by
  rw [clear, DiagnosticView.diagnosticsOf_dropWithin, Project.covers]

/-- No operation leaves a file without diagnostics in the view. -/
theorem hasNoEmptyFile_after
    {ledger : LintLedger}
    (h : ledger.view.HasNoEmptyFile)
    (event : LedgerEvent) :
    (ledger.after event).view.HasNoEmptyFile := by
  cases event with
  | enter target files time => exact (h.dropAll (ledger.superseded target)).replaceAll files
  | clear project => exact h.dropWithin project.root

theorem hasNoEmptyFile_afterAll (history : List LedgerEvent) :
    (empty.afterAll history).view.HasNoEmptyFile := by
  induction history using List.reverseRecOn with
  | nil => exact DiagnosticView.hasNoEmptyFile_empty
  | append_singleton history event ih =>
      rw [afterAll_snoc]
      exact hasNoEmptyFile_after ih event

end LintLedger
end TargetLint
