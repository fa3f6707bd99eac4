import TargetLint.Proofs.History
import TargetLint.Proofs.LintLedger.Operation

/-!
# The view of a ledger as a function of its history

The view is updated in place, and a library run supersedes files that the ledger
only knows from the set it remembers for the run's root.  The law of the view does
not mention that set: what a file has is decided by the last operation that touched
the file.  The invariant behind it ties the remembered set of a root to the last
operation that renewed it.
-/

namespace TargetLint

namespace LedgerEvent

/-- The operation sets the library files of the root anew: a library run of it, or its clearing. -/
def Renews (root : Path) : LedgerEvent → Prop
  | enter target _ _ => target.isLibrary = true ∧ target.root.Same root
  | clear project => project.root.Same root

/-- The operation is a run that reported on the path. -/
def ReportsOn (path : Path) : LedgerEvent → Prop
  | enter _ files _ => files.contains path = true
  | clear _ => False

/-- What the operation leaves on a path that it touches. -/
def leaves (path : Path) : LedgerEvent → List Diagnostic
  | enter _ files _ => (files.get? path).getD []
  | clear _ => []

end LedgerEvent

/--
The path is a library file of the root after the history: the last operation that renewed the
root was a library run of it, not its clearing, and reported on the path.
-/
def IsLibraryFile (root path : Path) (history : List LedgerEvent) : Prop :=
  ∃ event, LastWhere (fun _ event => event.Renews root) history event ∧ event.ReportsOn path

/--
After the given operations, the next one touches the path: a run that reports on it, a library run
that has it among the library files of its root, or the clearing of a project that covers it.
-/
def Touches (path : Path) (past : List LedgerEvent) : LedgerEvent → Prop
  | .enter target files _ =>
      files.contains path = true ∨
        (target.isLibrary = true ∧ IsLibraryFile target.root path past)
  | .clear project => project.covers path = true

namespace LintLedger

theorem isLibraryFile_snoc_of_renews
    {root path : Path}
    {history : List LedgerEvent}
    {event : LedgerEvent}
    (h : event.Renews root) :
    IsLibraryFile root path (history ++ [event]) ↔ event.ReportsOn path := by
  have hlast : ∀ other, LastWhere (fun _ event => event.Renews root) (history ++ [event]) other ↔
      other = event :=
    fun _ => lastWhere_snoc_of_fits h
  simp [IsLibraryFile, hlast]

theorem isLibraryFile_snoc_of_not_renews
    {root path : Path}
    {history : List LedgerEvent}
    {event : LedgerEvent}
    (h : ¬ event.Renews root) :
    IsLibraryFile root path (history ++ [event]) ↔ IsLibraryFile root path history := by
  have hlast : ∀ other, LastWhere (fun _ event => event.Renews root) (history ++ [event]) other ↔
      LastWhere (fun _ event => event.Renews root) history other :=
    fun _ => lastWhere_snoc_of_not_fits h
  simp [IsLibraryFile, hlast]

/-- An operation that renews a root leaves the files that it reported on as library files. -/
theorem any_libraryFiles_after_of_renews
    (ledger : LintLedger)
    {root path : Path}
    {event : LedgerEvent}
    (h : event.Renews root) :
    ((ledger.after event).recordOf root).libraryFiles.any (fun file => file.Same path) = true ↔
      event.ReportsOn path := by
  cases event with
  | enter target files time =>
      obtain ⟨hlibrary, hroot⟩ := h
      rw [after, recordOf_enter, if_pos hroot, libraryFiles_afterRun, if_pos hlibrary]
      simp [LedgerEvent.ReportsOn, PathTable.contains, PathTable.keys]
  | clear project =>
      have hroot : project.root.Same root := h
      rw [after, recordOf_clear, if_pos hroot]
      simp [LedgerEvent.ReportsOn]

theorem libraryFiles_after_of_not_renews
    (ledger : LintLedger)
    {root : Path}
    {event : LedgerEvent}
    (h : ¬ event.Renews root) :
    ((ledger.after event).recordOf root).libraryFiles = (ledger.recordOf root).libraryFiles := by
  cases event with
  | enter target files time =>
      rw [after, recordOf_enter]
      by_cases hroot : target.root.Same root
      · have hlibrary : ¬ target.isLibrary = true := fun hlibrary => h ⟨hlibrary, hroot⟩
        rw [if_pos hroot, libraryFiles_afterRun, if_neg hlibrary, ledger.recordOf_congr hroot]
      · rw [if_neg hroot]
  | clear project =>
      have hroot : ¬ project.root.Same root := h
      rw [after, recordOf_clear, if_neg hroot]

/-- The library files that a ledger remembers for a root are those that its history tells. -/
theorem any_libraryFiles_iff_isLibraryFile
    (history : List LedgerEvent)
    (root path : Path) :
    ((empty.afterAll history).recordOf root).libraryFiles.any (fun file => file.Same path) = true ↔
      IsLibraryFile root path history := by
  induction history using List.reverseRecOn with
  | nil => simp [IsLibraryFile, ProjectRecord.empty]
  | append_singleton history event ih =>
      rw [afterAll_snoc]
      by_cases hrenews : event.Renews root
      · rw [any_libraryFiles_after_of_renews _ hrenews, isLibraryFile_snoc_of_renews hrenews]
      · rw [libraryFiles_after_of_not_renews _ hrenews, isLibraryFile_snoc_of_not_renews hrenews,
          ih]

theorem isLibraryFile_congr
    {p q : Path}
    (h : p.Same q)
    {path : Path}
    {history : List LedgerEvent} :
    IsLibraryFile p path history ↔ IsLibraryFile q path history := by
  rw [← any_libraryFiles_iff_isLibraryFile, ← any_libraryFiles_iff_isLibraryFile,
    recordOf_congr _ h]

theorem isLibraryFile_congr_path
    {root p q : Path}
    (h : p.Same q)
    {history : List LedgerEvent} :
    IsLibraryFile root p history ↔ IsLibraryFile root q history := by
  simp only [← any_libraryFiles_iff_isLibraryFile, h.congr_right]

/-- What a run of a target supersedes, told by the history. -/
theorem any_superseded_iff
    (history : List LedgerEvent)
    (target : Target)
    (path : Path) :
    ((empty.afterAll history).superseded target).any (fun file => file.Same path) = true ↔
      target.isLibrary = true ∧ IsLibraryFile target.root path history := by
  rw [← any_libraryFiles_iff_isLibraryFile, superseded]
  by_cases hlibrary : target.isLibrary = true <;> simp [hlibrary]

/-- An operation that touches a path decides what it has. -/
theorem diagnosticsOf_after_of_touches
    {history : List LedgerEvent}
    {event : LedgerEvent}
    {path : Path}
    (h : Touches path history event) :
    ((empty.afterAll history).after event).view.diagnosticsOf path = event.leaves path := by
  cases event with
  | enter target files time =>
      rw [after, diagnosticsOf_enter, LedgerEvent.leaves]
      cases hget : files.get? path with
      | some diagnostics => rfl
      | none =>
          rcases h with hreports | hsuperseded
          · rw [PathTable.contains_eq_isSome_get?, hget] at hreports
            cases hreports
          · rw [if_pos ((any_superseded_iff history target path).2 hsuperseded)]
  | clear project =>
      have hcovers : project.covers path = true := h
      rw [after, diagnosticsOf_clear, if_pos hcovers, LedgerEvent.leaves]

/-- An operation that does not touch a path leaves it what it has. -/
theorem diagnosticsOf_after_of_not_touches
    {history : List LedgerEvent}
    {event : LedgerEvent}
    {path : Path}
    (h : ¬ Touches path history event) :
    ((empty.afterAll history).after event).view.diagnosticsOf path =
      (empty.afterAll history).view.diagnosticsOf path := by
  cases event with
  | enter target files time =>
      have hreports : files.get? path = none := by
        rw [PathTable.get?_eq_none_iff, ← Bool.not_eq_true]
        exact fun hreports => h (Or.inl hreports)
      have hsuperseded : ¬ ((empty.afterAll history).superseded target).any
          (fun file => file.Same path) = true := by
        intro hsuperseded
        exact h (Or.inr ((any_superseded_iff history target path).1 hsuperseded))
      rw [after, diagnosticsOf_enter, hreports, if_neg hsuperseded, Option.getD_none]
  | clear project =>
      have hcovers : ¬ project.covers path = true := h
      rw [after, diagnosticsOf_clear, if_neg hcovers]

/-- What a path has is what the last operation that touched it left there. -/
theorem diagnosticsOf_of_lastTouch
    {history : List LedgerEvent}
    {path : Path}
    {event : LedgerEvent}
    (h : LastWhere (Touches path) history event) :
    (empty.afterAll history).view.diagnosticsOf path = event.leaves path := by
  induction history using List.reverseRecOn with
  | nil => exact absurd h not_lastWhere_nil
  | append_singleton history last ih =>
      rw [afterAll_snoc]
      by_cases hlast : Touches path history last
      · rw [(lastWhere_snoc_of_fits hlast).1 h]
        exact diagnosticsOf_after_of_touches hlast
      · rw [diagnosticsOf_after_of_not_touches hlast]
        exact ih ((lastWhere_snoc_of_not_fits hlast).1 h)

/-- A path that no operation touched has nothing. -/
theorem diagnosticsOf_of_noneTouch
    {history : List LedgerEvent}
    {path : Path}
    (h : NoneWhere (Touches path) history) :
    (empty.afterAll history).view.diagnosticsOf path = [] := by
  induction history using List.reverseRecOn with
  | nil => rfl
  | append_singleton history last ih =>
      obtain ⟨hhistory, hlast⟩ := h.of_snoc
      rw [afterAll_snoc, diagnosticsOf_after_of_not_touches hlast]
      exact ih hhistory

/--
The view after any history.  What a file has is what the last operation that touched it left
there, and nothing where none did; the entries are the files that have something; and a clearing
tells how many files of the project have something at that moment, which are those it removes.
-/
theorem view_decided_by_last_touch
    (history : List LedgerEvent) :
    (∀ path event, LastWhere (Touches path) history event →
      (empty.afterAll history).view.diagnosticsOf path = event.leaves path) ∧
    (∀ path, NoneWhere (Touches path) history →
      (empty.afterAll history).view.diagnosticsOf path = []) ∧
    (∀ path, (∃ file ∈ (empty.afterAll history).view.files, file.1.Same path) ↔
      (empty.afterAll history).view.diagnosticsOf path ≠ []) ∧
    (∀ file ∈ (empty.afterAll history).view.files,
      (empty.afterAll history).view.diagnosticsOf file.1 = file.2) ∧
    (∀ past project later, history = past ++ .clear project :: later →
      ((empty.afterAll past).clearCount project : ℕ∞) =
          ((empty.afterAll past).view.reportedWithin project.root).encard ∧
        (empty.afterAll past).clearCount project +
            ((empty.afterAll past).clear project).view.size =
          (empty.afterAll past).view.size) := by
  refine ⟨fun path event => diagnosticsOf_of_lastTouch, fun path => diagnosticsOf_of_noneTouch,
    (hasNoEmptyFile_afterAll history).exists_mem_files_iff,
    fun file => DiagnosticView.diagnosticsOf_of_mem_files, ?_⟩
  intro past project later _
  exact ⟨(hasNoEmptyFile_afterAll past).countWithin_eq_encard project.root,
    DiagnosticView.countWithin_add_size_dropWithin _ project.root⟩

end LintLedger
end TargetLint
