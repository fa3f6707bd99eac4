import TargetLint.Proofs.Enumeration

/-!
# The counts of a project agree

Errors and warnings of a project are counted in four ways: file by file in its overview, place
by place in the tour, over the files of the snapshot of its root, and for the one file that a
status line tells of.  Whatever a view holds, the four agree, also for files that have neither
errors nor warnings and for files outside of the project.
-/

namespace TargetLint

namespace Waypoint

theorem length_ofFile
    (severity : Severity)
    (file : Path × List Diagnostic) :
    (ofFile severity file).length = file.2.countP (·.severity = severity) := by
  rw [ofFile, List.length_map, List.countP_eq_length_filter]

/-- There are as many places of a severity as diagnostics that have it. -/
theorem length_ofFiles
    (severity : Severity)
    (files : List (Path × List Diagnostic)) :
    (ofFiles severity files).length =
      totalOf (fun file => file.2.countP (·.severity = severity)) files := by
  rw [ofFiles, List.length_mergeSort]
  induction files with
  | nil => rfl
  | cons file rest ih =>
      rw [List.flatMap_cons, List.length_append, length_ofFile, ih, totalOf_cons]

end Waypoint

namespace ProblemFile

/-- The file has an error or a warning. -/
def HasProblem (file : Path × List Diagnostic) : Prop :=
  ∃ diagnostic ∈ file.2, diagnostic.isError = true ∨ diagnostic.isWarning = true

instance (file : Path × List Diagnostic) : Decidable (HasProblem file) :=
  inferInstanceAs (Decidable (∃ diagnostic ∈ file.2, _))

/-- The path of a file with the numbers of its errors and warnings. -/
def tally (file : Path × List Diagnostic) : Path × Nat × Nat :=
  (file.1, file.2.countP Diagnostic.isError, file.2.countP Diagnostic.isWarning)

/-- The files that are shown are those with an error or a warning. -/
theorem hasProblem_iff
    (project : Project)
    {file : Path × List Diagnostic} :
    HasProblem file ↔ ofFile? project file ≠ none := by
  rw [Ne, ofFile?_eq_none_iff, List.countP_eq_zero, List.countP_eq_zero, HasProblem]
  constructor
  · rintro ⟨diagnostic, hmem, herror | hwarning⟩ hnone
    · exact hnone.1 diagnostic hmem herror
    · exact hnone.2 diagnostic hmem hwarning
  · intro hsome
    by_contra hnone
    refine hsome ⟨fun diagnostic hmem herror => ?_, fun diagnostic hmem hwarning => ?_⟩
    · exact hnone ⟨diagnostic, hmem, Or.inl herror⟩
    · exact hnone ⟨diagnostic, hmem, Or.inr hwarning⟩

/-- The problem files of some files tell, of each with errors or warnings, how many it has. -/
theorem map_filterMap_ofFile?
    (project : Project)
    (files : List (Path × List Diagnostic)) :
    (files.filterMap (ofFile? project)).map
        (fun problem => (problem.path, problem.errors, problem.warnings)) =
      (files.filter fun file => HasProblem file).map tally := by
  induction files with
  | nil => rfl
  | cons file rest ih =>
      cases hfile : ofFile? project file with
      | none =>
          have hat : ¬ HasProblem file := fun hat => (hasProblem_iff project).1 hat hfile
          rw [List.filterMap_cons_none hfile, List.filter_cons_of_neg (by simpa using hat), ih]
      | some problem =>
          have hat : HasProblem file := (hasProblem_iff project).2 (by simp [hfile])
          obtain ⟨anchor, -, rfl⟩ := ofFile?_eq_some_iff.1 hfile
          rw [List.filterMap_cons_some hfile, List.filter_cons_of_pos (by simpa using hat),
            List.map_cons, List.map_cons, ih]
          rfl

end ProblemFile

namespace Overview

variable (view : DiagnosticView) (project : Project)

theorem mem_problems_iff
    {problem : ProblemFile} :
    problem ∈ (ofView view project).problems ↔
      ∃ file ∈ view.files, project.covers file.1 = true ∧
        ProblemFile.ofFile? project file = some problem := by
  rw [(perm_problems view project).mem_iff, List.mem_filterMap]
  constructor
  · rintro ⟨file, hfile, hproblem⟩
    obtain ⟨hmem, hcovers⟩ := List.mem_filter.1 hfile
    exact ⟨file, hmem, hcovers, hproblem⟩
  · rintro ⟨file, hmem, hcovers, hproblem⟩
    exact ⟨file, List.mem_filter.2 ⟨hmem, hcovers⟩, hproblem⟩

theorem length_tour :
    (ofView view project).tour.length =
      (ofView view project).errors + (ofView view project).warnings := by
  rw [errors_ofView, warnings_ofView]
  change (Waypoint.ofFiles .error _ ++ Waypoint.ofFiles .warning _).length = _
  rw [List.length_append, Waypoint.length_ofFiles, Waypoint.length_ofFiles]
  rfl

theorem perm_map_problems :
    ((ofView view project).problems.map
        fun problem => (problem.path, problem.errors, problem.warnings)).Perm
      (((view.snapshot project.root).files.filter fun file => ProblemFile.HasProblem file).map
        ProblemFile.tally) := by
  have hsnapshot := ((view.perm_files_snapshot project.root).filter
    fun file => ProblemFile.HasProblem file).map ProblemFile.tally
  refine ((perm_problems view project).map _).trans ?_
  rw [ProblemFile.map_filterMap_ofFile?]
  exact hsnapshot.symm

/-- No file has two problem files. -/
theorem pairwise_path_problems :
    (ofView view project).problems.Pairwise fun a b => ¬ a.path.Same b.path := by
  have hsymm : ∀ {a b : ProblemFile}, ¬ a.path.Same b.path → ¬ b.path.Same a.path :=
    fun hab hba => hab hba.symm
  refine (perm_problems view project).symm.pairwise ?_ hsymm
  rw [List.pairwise_filterMap]
  refine (view.table.distinct.filter _).imp ?_
  intro file next hne a ha b hb hsame
  obtain ⟨_, -, rfl⟩ := ProblemFile.ofFile?_eq_some_iff.1 ha
  obtain ⟨_, -, rfl⟩ := ProblemFile.ofFile?_eq_some_iff.1 hb
  exact hne hsame

/-- What a status line tells of a file: its diagnostics, if it belongs to the project. -/
def shownOf (current : Path) : List Diagnostic :=
  if project.covers current then view.diagnosticsOf current else []

/-- A problem file that is found under a path has the counts of the path's diagnostics. -/
theorem tally_of_find?_problems
    {current : Path}
    {problem : ProblemFile}
    (h : (ofView view project).problems.find? (fun file => file.path.Same current) =
      some problem) :
    problem.errors = (shownOf view project current).countP Diagnostic.isError ∧
      problem.warnings = (shownOf view project current).countP Diagnostic.isWarning := by
  obtain ⟨file, hfile, hcovers, hproblem⟩ :=
    (mem_problems_iff view project).1 (List.mem_of_find?_eq_some h)
  have hsame : problem.path.Same current := by simpa using List.find?_some h
  obtain ⟨anchor, -, rfl⟩ := ProblemFile.ofFile?_eq_some_iff.1 hproblem
  have hcurrent : project.covers current = true := by
    rw [← hcovers]
    exact (Path.startsWith_congr project.root hsame).symm
  have hshown : shownOf view project current = file.2 := by
    rw [shownOf, if_pos hcurrent, ← view.diagnosticsOf_congr hsame,
      DiagnosticView.diagnosticsOf_of_mem_files hfile]
  rw [hshown]
  exact ⟨rfl, rfl⟩

/-- Where no problem file is found under a path, there is no error or warning to show of it. -/
theorem tally_of_find?_problems_eq_none
    {current : Path}
    (h : (ofView view project).problems.find? (fun file => file.path.Same current) = none) :
    (shownOf view project current).countP Diagnostic.isError = 0 ∧
      (shownOf view project current).countP Diagnostic.isWarning = 0 := by
  by_cases hempty : shownOf view project current = []
  · simp [hempty]
  · by_cases hcurrent : project.covers current = true
    · rw [shownOf, if_pos hcurrent] at hempty ⊢
      obtain ⟨file, hfile, hsame⟩ := DiagnosticView.exists_mem_files_of_ne_nil hempty
      have hcovers : project.covers file.1 = true := by
        rw [← hcurrent]
        exact Path.startsWith_congr project.root hsame
      rw [← view.diagnosticsOf_congr hsame, DiagnosticView.diagnosticsOf_of_mem_files hfile]
      suffices hnone : ProblemFile.ofFile? project file = none from
        ProblemFile.ofFile?_eq_none_iff.1 hnone
      refine Option.eq_none_iff_forall_ne_some.2 ?_
      intro problem hproblem
      have hmem := (mem_problems_iff view project).2 ⟨file, hfile, hcovers, hproblem⟩
      obtain ⟨anchor, -, rfl⟩ := ProblemFile.ofFile?_eq_some_iff.1 hproblem
      exact List.find?_eq_none.1 h _ hmem (decide_eq_true hsame)
    · rw [shownOf, if_neg hcurrent] at hempty
      exact absurd rfl hempty

theorem statusLine_ofView (current : Path) :
    (ofView view project).statusLine current =
      s!"E:{(shownOf view project current).countP Diagnostic.isError}/{(ofView view project).errors} W:{(shownOf view project current).countP Diagnostic.isWarning}/{(ofView view project).warnings}" := by
  rw [statusLine]
  cases hfind : (ofView view project).problems.find? fun file => file.path.Same current with
  | none =>
      obtain ⟨herrors, hwarnings⟩ := tally_of_find?_problems_eq_none view project hfind
      rw [herrors, hwarnings]
      rfl
  | some problem =>
      obtain ⟨herrors, hwarnings⟩ := tally_of_find?_problems view project hfind
      rw [← herrors, ← hwarnings]
      rfl

end Overview

/--
All counts of a project agree.  The overview has the errors and warnings of the snapshot of the
project's root, and its tour a place for each of them.  Its problem files are the files of the
snapshot with errors or warnings, each once and with its own numbers.  A status line tells the
numbers of the file that is looked at, zero outside of the project, over those of the project.
-/
theorem counts_of_project_agree
    (view : DiagnosticView)
    (project : Project) :
    let overview := Overview.ofView view project
    let snapshot := view.snapshot project.root
    overview.errors = snapshot.errors ∧
    overview.warnings = snapshot.warnings ∧
    overview.tour.length = overview.errors + overview.warnings ∧
    (overview.problems.map fun problem => (problem.path, problem.errors, problem.warnings)).Perm
      ((snapshot.files.filter fun file => ProblemFile.HasProblem file).map ProblemFile.tally) ∧
    overview.problems.Pairwise (fun a b => ¬ a.path.Same b.path) ∧
    ∀ current,
      let shown := if project.covers current then view.diagnosticsOf current else []
      overview.statusLine current =
        s!"E:{shown.countP Diagnostic.isError}/{overview.errors} W:{shown.countP Diagnostic.isWarning}/{overview.warnings}" := by
  intro overview snapshot
  refine ⟨?_, ?_, ?_, ?_, ?_, ?_⟩
  · exact (Overview.errors_ofView view project).trans
      (view.countOf_snapshot project.root .error).symm
  · exact (Overview.warnings_ofView view project).trans
      (view.countOf_snapshot project.root .warning).symm
  · exact Overview.length_tour view project
  · exact Overview.perm_map_problems view project
  · exact Overview.pairwise_path_problems view project
  · exact Overview.statusLine_ofView view project

end TargetLint
