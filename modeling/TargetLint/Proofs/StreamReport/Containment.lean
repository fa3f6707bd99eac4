import TargetLint.Proofs.Path.Prefix
import TargetLint.Proofs.StreamReport.Conversion
import TargetLint.Proofs.StreamReport.Stream

/-!
# Where the diagnostics of a report lie

A report that points into the project becomes a diagnostic on the file that it names,
and an error that points elsewhere one on the manifest.  Either way the file lies
under the root, so the report on a stream only has files of its project.
-/

namespace TargetLint

namespace ProjectFiles

variable {files : ProjectFiles}

/-- The file that has the name of a manifest lies in the project, unless the name is absolute. -/
theorem covers_manifestFile
    (h : (Path.mk files.manifest).isAbsolute = false) :
    files.project.covers files.manifestFile = true :=
  Path.startsWith_join files.project.root h

/-- A report becomes a diagnostic on a file of the project. -/
theorem covers_of_diagnostic?
    (h : (Path.mk files.manifest).isAbsolute = false)
    {origin : String}
    {report : Message.Report}
    {diagnostic : Diagnostic}
    (hreport : report.diagnostic? files origin = some diagnostic) :
    files.project.covers diagnostic.path = true := by
  obtain ⟨-, primary, hprimary⟩ := Message.Report.primary?_of_diagnostic? hreport
  rcases Message.Report.diagnostic?_cases hreport hprimary with ⟨path, hnamed, rfl⟩ | ⟨-, -, rfl⟩
  · exact (named?_eq_some_iff.1 hnamed).2.1
  · exact covers_manifestFile h

/-- Every diagnostic that a stream yields is on a file of the project. -/
theorem covers_of_mem_yields
    (h : (Path.mk files.manifest).isAbsolute = false)
    {stream : MessageStream}
    {diagnostic : Diagnostic}
    (hmem : diagnostic ∈ stream.yields files) :
    files.project.covers diagnostic.path = true := by
  obtain ⟨line, -, hline⟩ := List.mem_filterMap.1 hmem
  obtain ⟨record, -, hrecord⟩ := Option.bind_eq_some_iff.1 hline
  obtain ⟨report, -, hreport⟩ := Option.bind_eq_some_iff.1 hrecord
  exact covers_of_diagnostic? h hreport

end ProjectFiles

namespace DiagnosticTable

/-- Every file of a table lies within the directory and has diagnostics, all of them its own. -/
def OwnWithin (directory : Path) (files : DiagnosticTable) : Prop :=
  ∀ path diagnostics, files.get? path = some diagnostics →
    path.startsWith directory = true ∧ diagnostics ≠ [] ∧
      ∀ diagnostic ∈ diagnostics, diagnostic.path.Same path

theorem OwnWithin.congr
    {p q : Path}
    {files : DiagnosticTable}
    (h : files.OwnWithin p)
    (hsame : p.Same q) :
    files.OwnWithin q := by
  intro path diagnostics hget
  rw [← Path.startsWith_congr_base path hsame]
  exact h path diagnostics hget

end DiagnosticTable

/-- A report on a project has files within its root, each with what is said of it alone. -/
theorem StreamReport.ownWithin_ofStream
    {files : ProjectFiles}
    (h : (Path.mk files.manifest).isAbsolute = false)
    (stream : MessageStream) :
    (ofStream files stream).diagnostics.OwnWithin files.project.root := by
  intro path diagnostics hget
  have hlist : diagnostics =
      (stream.yields files).filter fun diagnostic => diagnostic.path.Same path := by
    rw [← diagnosticsOf_ofStream, DiagnosticTable.diagnosticsOf, hget, Option.getD_some]
  have hcontains := contains_ofStream files stream path
  rw [PathTable.contains_eq_isSome_get?, hget, Option.isSome_some] at hcontains
  obtain ⟨own, hown, hsame⟩ := List.any_eq_true.1 hcontains.symm
  refine ⟨?_, ?_, ?_⟩
  · rw [← Path.startsWith_congr files.project.root (of_decide_eq_true hsame)]
    exact ProjectFiles.covers_of_mem_yields h hown
  · rw [hlist]
    exact List.ne_nil_of_mem (List.mem_filter.2 ⟨hown, hsame⟩)
  · intro diagnostic hdiagnostic
    rw [hlist] at hdiagnostic
    exact of_decide_eq_true (List.mem_filter.1 hdiagnostic).2

end TargetLint
