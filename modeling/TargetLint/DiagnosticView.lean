import TargetLint.Diagnostic.Basic

/-!
# The current diagnostics

The view holds the current diagnostics of every file that has any, across all
projects.  A snapshot is an ordered copy of the part within one directory; its
counts are computed from its files.
-/

namespace TargetLint

/-- The current diagnostics by file. -/
structure DiagnosticView where
  table : DiagnosticTable
deriving Inhabited

namespace DiagnosticView

/-- The view without files. -/
def empty : DiagnosticView :=
  ⟨.empty⟩

/-- Put diagnostics in the place of those of a file; a file without diagnostics is not held. -/
def replace
    (view : DiagnosticView)
    (path : Path)
    (diagnostics : List Diagnostic) :
    DiagnosticView :=
  ⟨if diagnostics = [] then view.table.erase path else view.table.set path diagnostics⟩

/-- Put every file's diagnostics in the place of those that it had. -/
def replaceAll (view : DiagnosticView) (files : DiagnosticTable) : DiagnosticView :=
  files.entries.foldl (fun done file => done.replace file.1 file.2) view

/-- Remove a file. -/
def drop (view : DiagnosticView) (path : Path) : DiagnosticView :=
  ⟨view.table.erase path⟩

/-- Remove several files. -/
def dropAll (view : DiagnosticView) (paths : List Path) : DiagnosticView :=
  paths.foldl drop view

/-- Remove the files within a directory. -/
def dropWithin (view : DiagnosticView) (directory : Path) : DiagnosticView :=
  ⟨view.table.filterKeys fun path => !path.startsWith directory⟩

/-- The number of files within a directory. -/
def countWithin (view : DiagnosticView) (directory : Path) : Nat :=
  view.table.keys.countP fun path => path.startsWith directory

/-- The current diagnostics of a file, none where it is not held. -/
def diagnosticsOf (view : DiagnosticView) (path : Path) : List Diagnostic :=
  (view.table.get? path).getD []

/-- The files with their diagnostics, in no particular order. -/
def files (view : DiagnosticView) : List (Path × List Diagnostic) :=
  view.table.entries

/-- The number of files. -/
def size (view : DiagnosticView) : Nat :=
  view.table.size

/-- No file is held. -/
def isEmpty (view : DiagnosticView) : Bool :=
  view.files.isEmpty

/-- The view that results from putting the files of a table into an empty one. -/
def ofTable (files : DiagnosticTable) : DiagnosticView :=
  empty.replaceAll files

@[simp] theorem diagnosticsOf_empty (path : Path) :
    empty.diagnosticsOf path = [] :=
  rfl

/-- After `replace`, the file has the new diagnostics and every other file what it had. -/
theorem diagnosticsOf_replace
    (view : DiagnosticView)
    (path : Path)
    (diagnostics : List Diagnostic)
    (query : Path) :
    (view.replace path diagnostics).diagnosticsOf query =
      if path.Same query then diagnostics else view.diagnosticsOf query := by
  by_cases hempty : diagnostics = []
  · simp only [replace, hempty, if_true, diagnosticsOf, PathTable.get?_erase]
    by_cases hsame : path.Same query <;> simp [hsame]
  · simp only [replace, hempty, if_false, diagnosticsOf, PathTable.get?_set]
    by_cases hsame : path.Same query <;> simp [hsame]

/-- After `drop`, the file has no diagnostics and every other file what it had. -/
theorem diagnosticsOf_drop
    (view : DiagnosticView)
    (path query : Path) :
    (view.drop path).diagnosticsOf query =
      if path.Same query then [] else view.diagnosticsOf query := by
  simp only [drop, diagnosticsOf, PathTable.get?_erase]
  by_cases hsame : path.Same query <;> simp [hsame]

/-- After `dropWithin`, the files of the directory have no diagnostics and the others what they had. -/
theorem diagnosticsOf_dropWithin
    (view : DiagnosticView)
    (directory query : Path) :
    (view.dropWithin directory).diagnosticsOf query =
      if query.startsWith directory then [] else view.diagnosticsOf query := by
  have hkeep : ∀ p q : Path, p.Same q → (!p.startsWith directory) = !q.startsWith directory :=
    fun p q h => by rw [Path.startsWith_congr directory h]
  simp only [dropWithin, diagnosticsOf, PathTable.get?_filterKeys view.table hkeep]
  cases query.startsWith directory <;> simp

end DiagnosticView

/-- An ordered copy of the diagnostics of some files. -/
structure Snapshot where
  files : List (Path × List Diagnostic)
deriving DecidableEq, Repr, Inhabited

namespace Snapshot

/-- The file has an error. -/
def hasErrors (file : Path × List Diagnostic) : Bool :=
  file.2.any Diagnostic.isError

/-- Files with errors come first; within each group the order is that of paths. -/
def fileLe (a b : Path × List Diagnostic) : Bool :=
  if hasErrors a = hasErrors b then a.1.le b.1 else hasErrors a

/-- The files within a directory among the given ones, in the order of a snapshot. -/
def ofFiles (files : List (Path × List Diagnostic)) (directory : Path) : Snapshot :=
  ⟨(files.filter fun file => file.1.startsWith directory).mergeSort fileLe⟩

/-- The number of diagnostics of one severity. -/
def countOf (snapshot : Snapshot) (severity : Severity) : Nat :=
  totalOf (fun file => file.2.countP (·.severity = severity)) snapshot.files

/-- The number of errors. -/
def errors (snapshot : Snapshot) : Nat :=
  snapshot.countOf .error

/-- The number of warnings. -/
def warnings (snapshot : Snapshot) : Nat :=
  snapshot.countOf .warning

/-- The number of diagnostics. -/
def total (snapshot : Snapshot) : Nat :=
  totalOf (fun file => file.2.length) snapshot.files

/-- The snapshot has no file. -/
def isEmpty (snapshot : Snapshot) : Bool :=
  snapshot.files.isEmpty

end Snapshot

/-- The snapshot of the files within a directory. -/
def DiagnosticView.snapshot (view : DiagnosticView) (directory : Path) : Snapshot :=
  .ofFiles view.files directory

end TargetLint
