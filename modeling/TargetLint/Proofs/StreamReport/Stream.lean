import TargetLint.StreamReport
import TargetLint.Proofs.PathTable
import Mathlib.Data.List.Induction

/-!
# The report on a stream, line by line

A report is built up by adding one line after another.  What it says in the end can
be read off the lines without building it: each line yields at most one diagnostic,
a file has those that were yielded for it in their order, and the numbers of the
lines that do not decode are noted.
-/

namespace TargetLint

/-- What a numbered line yields: the diagnostic of its record, if it decodes and has one. -/
def ProjectFiles.yield?
    (files : ProjectFiles)
    (line : Nat × Option Message.Line) :
    Option Diagnostic :=
  line.2.bind (Message.Line.diagnostic? files)

/-- The diagnostics that the lines of a stream yield, in their order. -/
def MessageStream.yields (stream : MessageStream) (files : ProjectFiles) : List Diagnostic :=
  stream.filterMap files.yield?

/-- The numbers of the lines that do not decode. -/
def MessageStream.undecoded (stream : MessageStream) : List Nat :=
  (stream.filter fun line => line.2.isNone).map Prod.fst

namespace DiagnosticTable

/-- The diagnostics of a file, none where the table does not have it. -/
def diagnosticsOf (files : DiagnosticTable) (path : Path) : List Diagnostic :=
  (files.get? path).getD []

/-- Appending to a file does not change what other files have. -/
theorem diagnosticsOf_append
    (files : DiagnosticTable)
    (path : Path)
    (diagnostics : List Diagnostic)
    (query : Path) :
    (files.append path diagnostics).diagnosticsOf query =
      files.diagnosticsOf query ++ if path.Same query then diagnostics else [] := by
  rw [diagnosticsOf, append, PathTable.get?_set]
  by_cases hsame : path.Same query
  · simp [hsame, diagnosticsOf, files.get?_congr hsame]
  · simp [hsame, diagnosticsOf]

theorem contains_append
    (files : DiagnosticTable)
    (path : Path)
    (diagnostics : List Diagnostic)
    (query : Path) :
    (files.append path diagnostics).contains query =
      (files.contains query || decide (path.Same query)) := by
  rw [append, PathTable.contains_eq_isSome_get?, PathTable.contains_eq_isSome_get?,
    PathTable.get?_set]
  by_cases hsame : path.Same query <;> simp [hsame]

theorem total_append
    (files : DiagnosticTable)
    (path : Path)
    (diagnostics : List Diagnostic) :
    (files.append path diagnostics).total = files.total + diagnostics.length := by
  have htotal := PathTable.totalOf_entries_set files path
    ((files.get? path).getD [] ++ diagnostics) List.length
  rw [List.length_append] at htotal
  unfold append total
  cases hget : files.get? path with
  | none =>
      simp only [hget, Option.map_none, Option.getD_none, List.length_nil] at htotal ⊢
      omega
  | some old =>
      simp only [hget, Option.map_some, Option.getD_some] at htotal ⊢
      omega

/-- Every file is kept under the path of its first diagnostic, as it is spelled there. -/
def IsHeaded (files : DiagnosticTable) : Prop :=
  ∀ entry ∈ files.entries, ∃ first rest, entry.2 = first :: rest ∧ first.path = entry.1

theorem IsHeaded.append
    {files : DiagnosticTable}
    (h : files.IsHeaded)
    (diagnostic : Diagnostic) :
    (files.append diagnostic.path [diagnostic]).IsHeaded := by
  intro entry hentry
  rcases PathTable.mem_entries_set hentry with
    hold | ⟨old, hold, hsame, hvalue⟩ | ⟨hnone, rfl⟩
  · exact h entry hold
  · obtain ⟨first, rest, rfl, hfirst⟩ : ∃ first rest, old = first :: rest ∧ first.path = entry.1 :=
      h (entry.1, old) hold
    have hget : files.get? diagnostic.path = some (first :: rest) := by
      rw [← files.get?_congr hsame]
      exact PathTable.get?_of_mem hold
    refine ⟨first, rest ++ [diagnostic], ?_, hfirst⟩
    rw [hvalue, hget, Option.getD_some, List.cons_append]
  · exact ⟨diagnostic, [], by rw [hnone, Option.getD_none, List.nil_append], rfl⟩

end DiagnosticTable

namespace StreamReport

variable (files : ProjectFiles)

theorem ofStream_snoc
    (stream : MessageStream)
    (line : Nat × Option Message.Line) :
    ofStream files (stream ++ [line]) = addLine files (ofStream files stream) line :=
  List.foldl_append

/-- A line adds what it yields. -/
theorem diagnostics_addLine
    (report : StreamReport)
    (line : Nat × Option Message.Line) :
    (addLine files report line).diagnostics =
      (files.yield? line).elim report.diagnostics fun diagnostic =>
        report.diagnostics.append diagnostic.path [diagnostic] := by
  obtain ⟨number, decoded⟩ := line
  cases decoded with
  | none => rfl
  | some record =>
      simp only [addLine, ProjectFiles.yield?, Option.bind_some]
      cases record.diagnostic? files <;> rfl

/-- A line adds its number if it does not decode. -/
theorem skipped_addLine
    (report : StreamReport)
    (line : Nat × Option Message.Line) :
    (addLine files report line).skipped =
      report.skipped ++ if line.2.isNone then [line.1] else [] := by
  obtain ⟨number, decoded⟩ := line
  cases decoded with
  | none => rfl
  | some record =>
      simp only [addLine, Option.isNone_some, Bool.false_eq_true, if_false, List.append_nil]
      cases record.diagnostic? files <;> rfl

theorem skipped_ofStream (stream : MessageStream) :
    (ofStream files stream).skipped = stream.undecoded := by
  induction stream using List.reverseRecOn with
  | nil => rfl
  | append_singleton stream line ih =>
      rw [ofStream_snoc, skipped_addLine, ih, MessageStream.undecoded, MessageStream.undecoded,
        List.filter_append, List.map_append]
      cases hline : line.2.isNone <;> simp [hline]

/-- A file has the diagnostics that were yielded for it, in their order. -/
theorem diagnosticsOf_ofStream
    (stream : MessageStream)
    (path : Path) :
    (ofStream files stream).diagnostics.diagnosticsOf path =
      (stream.yields files).filter fun diagnostic => diagnostic.path.Same path := by
  induction stream using List.reverseRecOn with
  | nil => rfl
  | append_singleton stream line ih =>
      rw [ofStream_snoc, diagnostics_addLine, MessageStream.yields, List.filterMap_append,
        List.filter_append, ← MessageStream.yields, ← ih]
      cases hyield : files.yield? line with
      | none => simp [hyield]
      | some diagnostic =>
          rw [Option.elim_some, DiagnosticTable.diagnosticsOf_append]
          by_cases hsame : diagnostic.path.Same path <;> simp [hyield, hsame]

/-- The files of a report are those for which something was yielded. -/
theorem contains_ofStream
    (stream : MessageStream)
    (path : Path) :
    (ofStream files stream).diagnostics.contains path =
      (stream.yields files).any fun diagnostic => diagnostic.path.Same path := by
  induction stream using List.reverseRecOn with
  | nil => rfl
  | append_singleton stream line ih =>
      rw [ofStream_snoc, diagnostics_addLine, MessageStream.yields, List.filterMap_append,
        List.any_append, ← MessageStream.yields, ← ih]
      cases hyield : files.yield? line with
      | none => simp [hyield]
      | some diagnostic =>
          rw [Option.elim_some, DiagnosticTable.contains_append]
          simp [hyield]

theorem isHeaded_ofStream (stream : MessageStream) :
    (ofStream files stream).diagnostics.IsHeaded := by
  induction stream using List.reverseRecOn with
  | nil =>
      intro entry hentry
      cases hentry
  | append_singleton stream line ih =>
      rw [ofStream_snoc, diagnostics_addLine]
      cases files.yield? line with
      | none => exact ih
      | some diagnostic => exact ih.append diagnostic

theorem total_ofStream (stream : MessageStream) :
    (ofStream files stream).total = (stream.yields files).length := by
  induction stream using List.reverseRecOn with
  | nil => rfl
  | append_singleton stream line ih =>
      rw [total] at ih ⊢
      rw [ofStream_snoc, diagnostics_addLine, MessageStream.yields, List.filterMap_append,
        List.length_append, ← MessageStream.yields, ← ih]
      cases hyield : files.yield? line with
      | none => simp [hyield]
      | some diagnostic =>
          rw [Option.elim_some, DiagnosticTable.total_append]
          simp [hyield]

end StreamReport

end TargetLint
