import TargetLint.Overview
import TargetLint.Proofs.LintLedger.Slice

/-!
# Counts of what is shown

A snapshot puts the files within a directory into an order, and an overview keeps of
them those with errors or warnings, in another order.  Neither changes any count:
both tell as many errors and warnings as the part of the view within the directory has.
-/

namespace TargetLint

variable {α β : Type}

theorem totalOf_perm
    {first second : List α}
    (h : first.Perm second)
    (weight : α → Nat) :
    totalOf weight first = totalOf weight second := by
  induction h with
  | nil => rfl
  | cons item _ ih => simp [ih]
  | swap item other rest =>
      simp only [totalOf_cons]
      omega
  | trans _ _ hfirst hsecond => exact hfirst.trans hsecond

/-- Items that are left out count for nothing. -/
theorem totalOf_filterMap
    (weight : β → Nat)
    (choose : α → Option β)
    (items : List α) :
    totalOf weight (items.filterMap choose) =
      totalOf (fun item => (choose item).elim 0 weight) items := by
  induction items with
  | nil => rfl
  | cons item rest ih =>
      cases hitem : choose item <;> simp [hitem, ih]

namespace ProblemFile

/-- There is an earliest region of a severity unless nothing has the severity. -/
theorem earliest?_eq_none_iff
    {severity : Severity}
    {diagnostics : List Diagnostic} :
    earliest? severity diagnostics = none ↔
      diagnostics.countP (·.severity = severity) = 0 := by
  induction diagnostics using List.reverseRecOn with
  | nil => simp [earliest?]
  | append_singleton before last ih =>
      rw [earliest?] at ih
      rw [earliest?, List.foldl_append, List.foldl_cons, List.foldl_nil, List.countP_append]
      by_cases hlast : last.severity = severity
      · simp [hlast]
      · simp [hlast, ih]

/-- A file that is left out of an overview has neither errors nor warnings. -/
theorem ofFile?_eq_none_iff
    {project : Project}
    {file : Path × List Diagnostic} :
    ofFile? project file = none ↔
      file.2.countP Diagnostic.isError = 0 ∧ file.2.countP Diagnostic.isWarning = 0 := by
  have hanchor : ofFile? project file = none ↔
      (earliest? .error file.2).or (earliest? .warning file.2) = none := by
    rw [ofFile?]
    cases (earliest? .error file.2).or (earliest? .warning file.2) <;> simp
  rw [hanchor, Option.or_eq_none_iff, earliest?_eq_none_iff, earliest?_eq_none_iff]
  rfl

/-- What is shown of a file that has errors or warnings. -/
theorem ofFile?_eq_some_iff
    {project : Project}
    {file : Path × List Diagnostic}
    {problem : ProblemFile} :
    ofFile? project file = some problem ↔
      ∃ anchor, (earliest? .error file.2).or (earliest? .warning file.2) = some anchor ∧
        problem = {
          path := file.1
          label := (project.pathWithin file.1).text
          errors := file.2.countP Diagnostic.isError
          warnings := file.2.countP Diagnostic.isWarning
          anchor := anchor } := by
  rw [ofFile?]
  cases (earliest? .error file.2).or (earliest? .warning file.2) with
  | none => simp
  | some anchor => simp [eq_comm]

theorem counts_of_ofFile?
    {project : Project}
    {file : Path × List Diagnostic}
    {problem : ProblemFile}
    (h : ofFile? project file = some problem) :
    problem.errors = file.2.countP Diagnostic.isError ∧
      problem.warnings = file.2.countP Diagnostic.isWarning := by
  obtain ⟨anchor, -, rfl⟩ := ofFile?_eq_some_iff.1 h
  exact ⟨rfl, rfl⟩

/-- A file counts in an overview for its errors and warnings, shown or not. -/
theorem elim_ofFile?
    (project : Project)
    (file : Path × List Diagnostic) :
    (ofFile? project file).elim 0 errors = file.2.countP Diagnostic.isError ∧
      (ofFile? project file).elim 0 warnings = file.2.countP Diagnostic.isWarning := by
  cases hfile : ofFile? project file with
  | none =>
      obtain ⟨herrors, hwarnings⟩ := ofFile?_eq_none_iff.1 hfile
      exact ⟨herrors.symm, hwarnings.symm⟩
  | some problem => exact counts_of_ofFile? hfile

end ProblemFile

namespace DiagnosticView

/-- A snapshot has the files within its directory. -/
theorem perm_files_snapshot
    (view : DiagnosticView)
    (directory : Path) :
    (view.snapshot directory).files.Perm (view.within directory).files :=
  List.mergeSort_perm _ _

theorem length_files_snapshot
    (view : DiagnosticView)
    (directory : Path) :
    (view.snapshot directory).files.length = (view.within directory).size :=
  (view.perm_files_snapshot directory).length_eq

theorem countOf_snapshot
    (view : DiagnosticView)
    (directory : Path)
    (severity : Severity) :
    (view.snapshot directory).countOf severity = (view.within directory).table.countOf severity :=
  totalOf_perm (view.perm_files_snapshot directory) _

end DiagnosticView

namespace Overview

variable (view : DiagnosticView) (project : Project)

/-- The problems of an overview, in no particular order. -/
theorem perm_problems :
    (ofView view project).problems.Perm
      ((view.within project.root).files.filterMap (ProblemFile.ofFile? project)) :=
  List.mergeSort_perm _ _

theorem errors_ofView :
    (ofView view project).errors = (view.within project.root).table.countOf .error := by
  rw [errors, totalOf_perm (perm_problems view project), totalOf_filterMap]
  simp only [(ProblemFile.elim_ofFile? project _).1]
  rfl

theorem warnings_ofView :
    (ofView view project).warnings = (view.within project.root).table.countOf .warning := by
  rw [warnings, totalOf_perm (perm_problems view project), totalOf_filterMap]
  simp only [(ProblemFile.elim_ofFile? project _).2]
  rfl

end Overview
end TargetLint
