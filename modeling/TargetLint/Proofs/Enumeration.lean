import TargetLint.Proofs.Counts
import TargetLint.Proofs.Order
import TargetLint.Proofs.Path.Rest

/-!
# What is shown does not depend on the order of a view

A view holds its files in no particular order.  Sorting removes what is left of it from a
snapshot and from an overview, as nothing in them ties that is not equal: the paths of a
view differ, paths within a project that differ have different labels, and places that
tie are the same place.
-/

namespace TargetLint

variable {view other : DiagnosticView} {project : Project} {directory : Path}

namespace Snapshot

/-- Files with errors first, then by path. -/
def compareFiles (a b : Path × List Diagnostic) : Ordering :=
  (Ord.compare (hasErrors b) (hasErrors a)).then (a.1.compare b.1)

theorem fileLe_eq : fileLe = fun a b => (compareFiles a b).isLE := by
  funext a b
  rw [fileLe, compareFiles]
  cases hasErrors a <;> cases hasErrors b <;> rfl

instance : Std.TransCmp compareFiles :=
  transCmp_then (transCmp_on (fun a b => Ord.compare b a) hasErrors)
    (transCmp_on Path.compare Prod.fst)

theorem same_of_compareFiles
    {a b : Path × List Diagnostic}
    (h : compareFiles a b = .eq) :
    a.1.Same b.1 :=
  Path.compare_eq_eq_iff.1 (Ordering.then_eq_eq.1 h).2

/-- One of the diagnostics of the file is an error. -/
def HoldsError (file : Path × List Diagnostic) : Prop :=
  ∃ diagnostic ∈ file.2, diagnostic.severity = .error

theorem hasErrors_eq_true_iff
    {file : Path × List Diagnostic} :
    hasErrors file = true ↔ HoldsError file := by
  simp [hasErrors, HoldsError, Diagnostic.isError]

/-- Where a file stands in a snapshot before another. -/
def Before (a b : Path × List Diagnostic) : Prop :=
  (HoldsError a ∧ ¬ HoldsError b) ∨
    ((HoldsError a ↔ HoldsError b) ∧ a.1.compare b.1 = .lt)

theorem before_of_compareFiles
    {a b : Path × List Diagnostic}
    (h : compareFiles a b = .lt) :
    Before a b := by
  rw [Before, ← hasErrors_eq_true_iff, ← hasErrors_eq_true_iff]
  rcases Ordering.then_eq_lt.1 h with herrors | ⟨herrors, hpath⟩
  · refine Or.inl ?_
    revert herrors
    cases hasErrors a <;> cases hasErrors b <;> decide
  · refine Or.inr ⟨?_, hpath⟩
    rw [Std.compare_eq_iff_eq.1 herrors]

end Snapshot

theorem DiagnosticView.snapshot_eq_of_perm
    (h : view.files.Perm other.files) :
    view.snapshot directory = other.snapshot directory := by
  have hties : ∀ a ∈ view.files.filter fun file => file.1.startsWith directory,
      ∀ b ∈ view.files.filter fun file => file.1.startsWith directory,
      Snapshot.compareFiles a b = .eq → a = b := by
    intro a ha b hb heq
    exact PathTable.entry_eq_of_same (List.mem_of_mem_filter ha) (List.mem_of_mem_filter hb)
      (Snapshot.same_of_compareFiles heq)
  rw [snapshot, snapshot, Snapshot.ofFiles, Snapshot.ofFiles, Snapshot.fileLe_eq,
    mergeSort_eq_of_perm Snapshot.compareFiles (h.filter _) hties]

theorem DiagnosticView.pairwise_snapshot
    (view : DiagnosticView)
    (directory : Path) :
    (view.snapshot directory).files.Pairwise Snapshot.Before := by
  have hapart : (view.files.filter fun file => file.1.startsWith directory).Pairwise
      fun a b => Snapshot.compareFiles a b ≠ .eq :=
    (view.table.distinct.filter _).imp fun hne heq => hne (Snapshot.same_of_compareFiles heq)
  rw [snapshot, Snapshot.ofFiles, Snapshot.fileLe_eq]
  exact (pairwise_lt_mergeSort Snapshot.compareFiles hapart).imp Snapshot.before_of_compareFiles

namespace ProblemFile

instance : Std.TransCmp compare :=
  transCmp_then (transCmp_on (fun a b => Ord.compare b a) errors)
    (transCmp_then (transCmp_on (fun a b => Ord.compare b a) warnings)
      (transCmp_on Ord.compare label))

/-- Where a problem file stands in an overview before another. -/
def Before (a b : ProblemFile) : Prop :=
  b.errors < a.errors ∨ a.errors = b.errors ∧
    (b.warnings < a.warnings ∨ a.warnings = b.warnings ∧ a.label < b.label)

theorem before_of_compare
    {a b : ProblemFile}
    (h : a.compare b = .lt) :
    a.Before b := by
  rw [compare, Ordering.then_eq_lt, Ordering.then_eq_lt, Nat.compare_eq_lt, Nat.compare_eq_lt,
    Nat.compare_eq_eq, Nat.compare_eq_eq] at h
  rcases h with herrors | ⟨herrors, hwarnings | ⟨hwarnings, hlabel⟩⟩
  · exact Or.inl herrors
  · exact Or.inr ⟨herrors.symm, Or.inl hwarnings⟩
  · exact Or.inr ⟨herrors.symm, Or.inr ⟨hwarnings.symm, compareOfLessAndEq_eq_lt.1 hlabel⟩⟩

theorem label_eq_of_compare
    {a b : ProblemFile}
    (h : a.compare b = .eq) :
    a.label = b.label := by
  rw [compare, Ordering.then_eq_eq, Ordering.then_eq_eq] at h
  exact Std.compare_eq_iff_eq.1 h.2.2

theorem label_of_ofFile?
    {file : Path × List Diagnostic}
    {problem : ProblemFile}
    (h : ofFile? project file = some problem) :
    problem.label = (project.pathWithin file.1).text := by
  obtain ⟨anchor, -, rfl⟩ := ofFile?_eq_some_iff.1 h
  rfl

/-- Files of a project whose problem files tie are the same. -/
theorem same_of_compare
    {file next : Path × List Diagnostic}
    {a b : ProblemFile}
    (hfile : project.covers file.1 = true)
    (hnext : project.covers next.1 = true)
    (ha : ofFile? project file = some a)
    (hb : ofFile? project next = some b)
    (h : a.compare b = .eq) :
    file.1.Same next.1 := by
  refine project.same_of_pathWithin_eq hfile hnext ?_
  rw [← label_of_ofFile? ha, ← label_of_ofFile? hb, label_eq_of_compare h]

end ProblemFile

namespace Waypoint

instance : Std.TransCmp compare :=
  transCmp_then (transCmp_on Path.compare path) (transCmp_on Region.compare region)

/-- Places in the files of a view that tie are the same place, spelled alike. -/
theorem eq_of_compare
    {severity : Severity}
    {files : List (Path × List Diagnostic)}
    {a b : Waypoint}
    (hfiles : ∀ file ∈ files, file ∈ view.files)
    (ha : a ∈ files.flatMap (ofFile severity))
    (hb : b ∈ files.flatMap (ofFile severity))
    (h : a.compare b = .eq) :
    a = b := by
  obtain ⟨file, hfile, hplace⟩ := List.mem_flatMap.1 ha
  obtain ⟨next, hnext, hother⟩ := List.mem_flatMap.1 hb
  obtain ⟨diagnostic, -, rfl⟩ := List.mem_map.1 hplace
  obtain ⟨further, -, rfl⟩ := List.mem_map.1 hother
  obtain ⟨hpath, hregion⟩ := Ordering.then_eq_eq.1 h
  have hentry := PathTable.entry_eq_of_same (hfiles file hfile) (hfiles next hnext)
    (Path.compare_eq_eq_iff.1 hpath)
  have hplaces : diagnostic.region = further.region := Region.eq_of_compare hregion
  rw [hentry, hplaces]

/-- The places of files do not depend on the order of the files. -/
theorem ofFiles_eq_of_perm
    {severity : Severity}
    {files others : List (Path × List Diagnostic)}
    (hfiles : ∀ file ∈ files, file ∈ view.files)
    (h : files.Perm others) :
    ofFiles severity files = ofFiles severity others := by
  rw [ofFiles, ofFiles]
  exact mergeSort_eq_of_perm compare (h.flatMap_right _)
    fun a ha b hb => eq_of_compare hfiles ha hb

end Waypoint

namespace Overview

theorem ofView_eq_of_perm
    (h : view.files.Perm other.files) :
    ofView view project = ofView other project := by
  have hown := h.filter fun file => project.covers file.1
  have hfiles : ∀ file ∈ view.files.filter fun file => project.covers file.1,
      file ∈ view.files := fun file hfile => List.mem_of_mem_filter hfile
  have hties : ∀ a ∈ (view.files.filter fun file => project.covers file.1).filterMap
        (ProblemFile.ofFile? project),
      ∀ b ∈ (view.files.filter fun file => project.covers file.1).filterMap
        (ProblemFile.ofFile? project),
      a.compare b = .eq → a = b := by
    intro a ha b hb heq
    obtain ⟨file, hfile, hproblem⟩ := List.mem_filterMap.1 ha
    obtain ⟨next, hnext, hother⟩ := List.mem_filterMap.1 hb
    have hsame := ProblemFile.same_of_compare (List.mem_filter.1 hfile).2
      (List.mem_filter.1 hnext).2 hproblem hother heq
    have hentry := PathTable.entry_eq_of_same (hfiles file hfile) (hfiles next hnext) hsame
    rw [hentry, hother] at hproblem
    exact (Option.some.inj hproblem).symm
  rw [ofView, ofView, ofFiles, ofFiles, mergeSort_eq_of_perm ProblemFile.compare (hown.filterMap _) hties,
    Waypoint.ofFiles_eq_of_perm hfiles hown, Waypoint.ofFiles_eq_of_perm hfiles hown]

theorem pairwise_problems
    (view : DiagnosticView)
    (project : Project) :
    (ofView view project).problems.Pairwise ProblemFile.Before := by
  have hapart : ((view.files.filter fun file => project.covers file.1).filterMap
      (ProblemFile.ofFile? project)).Pairwise fun a b => a.compare b ≠ .eq := by
    rw [List.pairwise_filterMap]
    refine (view.table.distinct.filter _).imp_of_mem ?_
    intro file next hfile hnext hne a ha b hb heq
    exact hne (ProblemFile.same_of_compare (List.mem_filter.1 hfile).2 (List.mem_filter.1 hnext).2
      ha hb heq)
  exact (pairwise_lt_mergeSort ProblemFile.compare hapart).imp ProblemFile.before_of_compare

end Overview

/--
What is shown of a project and of a directory is the same for all orders in which a view may hold
its files.  The problem files of an overview ascend strictly; a snapshot has each file within its
directory once, those with errors first, and ascends strictly among those and among the others.
-/
theorem shown_whatever_the_order
    (view other : DiagnosticView)
    (h : view.files.Perm other.files)
    (project : Project)
    (directory : Path) :
    Overview.ofView view project = Overview.ofView other project ∧
    view.snapshot directory = other.snapshot directory ∧
    (Overview.ofView view project).problems.Pairwise ProblemFile.Before ∧
    (view.snapshot directory).files.Perm
      (view.files.filter fun file => file.1.startsWith directory) ∧
    (view.snapshot directory).files.Pairwise Snapshot.Before := by
  refine ⟨Overview.ofView_eq_of_perm h, DiagnosticView.snapshot_eq_of_perm h, ?_, ?_, ?_⟩
  · exact Overview.pairwise_problems view project
  · exact List.mergeSort_perm _ _
  · exact view.pairwise_snapshot directory

/-- A view with two files of a project, each with a diagnostic, that came in the given order. -/
def pairView (first second : String) : DiagnosticView :=
  let diagnosed (name : String) : List Diagnostic :=
    [⟨⟨name⟩, .origin, .warning, "found", none⟩]
  (DiagnosticView.empty.replace ⟨first⟩ (diagnosed first)).replace ⟨second⟩ (diagnosed second)

/-- Which of two files came first does not show. -/
theorem shown_whatever_the_order_of_pairView :
    (pairView "/a/x" "/a/y").files ≠ (pairView "/a/y" "/a/x").files ∧
      Overview.ofView (pairView "/a/x" "/a/y") ⟨⟨"/a"⟩⟩ =
        Overview.ofView (pairView "/a/y" "/a/x") ⟨⟨"/a"⟩⟩ ∧
      (pairView "/a/x" "/a/y").snapshot ⟨"/a"⟩ = (pairView "/a/y" "/a/x").snapshot ⟨"/a"⟩ := by
  have hperm : (pairView "/a/x" "/a/y").files.Perm (pairView "/a/y" "/a/x").files := by
    decide
  obtain ⟨hoverview, hsnapshot, -⟩ :=
    shown_whatever_the_order _ _ hperm ⟨⟨"/a"⟩⟩ ⟨"/a"⟩
  exact ⟨by decide, hoverview, hsnapshot⟩

end TargetLint
