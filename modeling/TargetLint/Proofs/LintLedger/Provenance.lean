import TargetLint.Proofs.LintLedger.LastTouch
import TargetLint.Proofs.StreamReport.Containment

/-!
# Where the diagnostics of a view come from

If every run only reports on files within its root, then a file of the view lies within
the root of the run that wrote it, and if that run was one of a library, it is the last
library run of its root: a later one, or a clearing of the root, would have touched the
file.
-/

namespace TargetLint

namespace LedgerEvent

/-- A run only reports on files within its root, and says of each file what it says. -/
def StaysWithin : LedgerEvent → Prop
  | enter target files _ => files.OwnWithin target.root
  | clear _ => True

end LedgerEvent

namespace LintLedger

/--
A library run of a root reported on a file within the root.  As long as nothing touches the file,
the root is not renewed, and the file remains one of its library files.
-/
theorem no_renewal_of_untouched
    {path : Path}
    {before later : List LedgerEvent}
    {target : Target}
    {files : DiagnosticTable}
    {time : TimeOfDay}
    (hlibrary : target.isLibrary = true)
    (hreports : files.contains path = true)
    (hwithin : path.startsWith target.root = true)
    (huntouched : ∀ between next rest, later = between ++ next :: rest →
      ¬ Touches path (before ++ .enter target files time :: between) next) :
    (∀ event ∈ later, ¬ event.Renews target.root) ∧
      IsLibraryFile target.root path (before ++ .enter target files time :: later) := by
  induction later using List.reverseRecOn with
  | nil =>
      have hrenews : (LedgerEvent.enter target files time).Renews target.root :=
        ⟨hlibrary, Path.Same.refl _⟩
      exact ⟨by simp, (isLibraryFile_snoc_of_renews hrenews).2 hreports⟩
  | append_singleton later last ih =>
      obtain ⟨hlater, hfile⟩ := ih fun between next rest hsplit =>
        huntouched between next (rest ++ [last]) (by simp [hsplit])
      have hlast : ¬ Touches path (before ++ .enter target files time :: later) last :=
        huntouched later last [] rfl
      have hrenews : ¬ last.Renews target.root := by
        intro hrenews
        cases last with
        | enter other otherFiles otherTime =>
            obtain ⟨hother, hroot⟩ := hrenews
            exact hlast (Or.inr ⟨hother, (isLibraryFile_congr hroot).2 hfile⟩)
        | clear project =>
            have hcovers : project.covers path = true := by
              rw [Project.covers, Path.startsWith_congr_base path hrenews, hwithin]
            exact hlast hcovers
      constructor
      · intro event hevent
        rcases List.mem_append.1 hevent with hold | hnew
        · exact hlater event hold
        · rw [List.mem_singleton.1 hnew]
          exact hrenews
      · rw [← List.cons_append, ← List.append_assoc]
        exact (isLibraryFile_snoc_of_not_renews hrenews).2 hfile

/-- A file of the view was written by a run, and nothing touched it since. -/
theorem exists_run_of_mem_files
    {history : List LedgerEvent}
    {file : Path × List Diagnostic}
    (hfile : file ∈ (empty.afterAll history).view.files) :
    ∃ before target files time later,
      history = before ++ .enter target files time :: later ∧
      files.get? file.1 = some file.2 ∧
      ∀ between next rest, later = between ++ next :: rest →
        ¬ Touches file.1 (before ++ .enter target files time :: between) next := by
  have hcurrent := DiagnosticView.diagnosticsOf_of_mem_files hfile
  have hnonempty := hasNoEmptyFile_afterAll history file hfile
  rcases exists_lastWhere_or_noneWhere (Touches file.1) history with ⟨event, hlast⟩ | hnone
  · rw [diagnosticsOf_of_lastTouch hlast] at hcurrent
    obtain ⟨before, later, hsplit, -, huntouched⟩ := hlast
    cases event with
    | enter target files time =>
        refine ⟨before, target, files, time, later, hsplit, ?_, huntouched⟩
        cases hget : files.get? file.1 with
        | some diagnostics =>
            rw [LedgerEvent.leaves, hget, Option.getD_some] at hcurrent
            rw [hcurrent]
        | none =>
            rw [LedgerEvent.leaves, hget, Option.getD_none] at hcurrent
            exact absurd hcurrent.symm hnonempty
    | clear project => exact absurd hcurrent.symm hnonempty
  · rw [diagnosticsOf_of_noneTouch hnone] at hcurrent
    exact absurd hcurrent.symm hnonempty

/--
Where runs stay within their roots, a file of the view lies within the root of the run that wrote
it, which counts as linted, and has what is said of it alone.  A library run that wrote a file of
the view is the last one of its root.
-/
theorem exists_run_within_of_mem_files
    {history : List LedgerEvent}
    (hstays : ∀ event ∈ history, event.StaysWithin)
    {file : Path × List Diagnostic}
    (hfile : file ∈ (empty.afterAll history).view.files) :
    ∃ before target files time later,
      history = before ++ .enter target files time :: later ∧
      files.get? file.1 = some file.2 ∧
      (∀ between next rest, later = between ++ next :: rest →
        ¬ Touches file.1 (before ++ .enter target files time :: between) next) ∧
      file.1.startsWith target.root = true ∧
      (empty.afterAll history).hasAnyRun target.root = true ∧
      file.2 ≠ [] ∧
      (∀ diagnostic ∈ file.2, diagnostic.path.Same file.1) ∧
      (target.isLibrary = true → ∀ event ∈ later, ¬ event.Renews target.root) := by
  obtain ⟨before, target, files, time, later, hsplit, hget, huntouched⟩ :=
    exists_run_of_mem_files hfile
  have hmem : .enter target files time ∈ history := by
    simp [hsplit]
  have hown : files.OwnWithin target.root := hstays _ hmem
  obtain ⟨hwithin, hnonempty, hsame⟩ := hown file.1 file.2 hget
  have hreports : files.contains file.1 = true := by
    rw [PathTable.contains_eq_isSome_get?, hget, Option.isSome_some]
  refine ⟨before, target, files, time, later, hsplit, hget, huntouched, hwithin,
    hasAnyRun_afterAll_of_mem hmem, hnonempty, hsame, ?_⟩
  intro hlibrary
  exact (no_renewal_of_untouched hlibrary hreports hwithin huntouched).1

end LintLedger
end TargetLint
