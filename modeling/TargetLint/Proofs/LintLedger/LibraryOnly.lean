import TargetLint.Proofs.LintLedger.Freshness
import TargetLint.Proofs.LintLedger.Slice

/-!
# Roots of which only the library was linted

A library run takes the place of what the last one of its root reported.  If no other
target of the root was linted and no run of another root reaches into it, nothing else
is in view there, so the view within the root is the report of the run.  The same
holds of the first run of a root, whatever its target.
-/

namespace TargetLint

/-- A run is one of a library of the root, or of a target whose root is apart from it. -/
def LedgerEvent.KeepsToLibrary (root : Path) : LedgerEvent → Prop
  | enter target _ _ => target.root.Apart root ∨ (target.root.Same root ∧ target.isLibrary = true)
  | clear _ => True

instance (root : Path) : DecidablePred (LedgerEvent.KeepsToLibrary root)
  | .enter target _ _ =>
      inferInstanceAs
        (Decidable (target.root.Apart root ∨ (target.root.Same root ∧ target.isLibrary = true)))
  | .clear _ => isTrue trivial

namespace LintLedger

variable {history : List LedgerEvent} {root : Path} {target : Target} {files : DiagnosticTable}

/-- What is in view within the root was reported by the last library run of it. -/
theorem isLibraryFile_of_mem_files
    (hstays : ∀ event ∈ history, event.StaysWithin)
    (honly : ∀ event ∈ history, event.KeepsToLibrary root)
    {file : Path × List Diagnostic}
    (hfile : file ∈ (empty.afterAll history).view.files)
    (hwithin : file.1.startsWith root = true) :
    IsLibraryFile root file.1 history ∧
      ∃ event ∈ history, event.IsRunOf fun ran => ran.root.Same root := by
  obtain ⟨before, ran, reported, time, later, rfl, hget, huntouched, hunder, -⟩ :=
    exists_run_within_of_mem_files hstays hfile
  have hmem : LedgerEvent.enter ran reported time ∈ before ++ .enter ran reported time :: later := by
    simp
  rcases honly _ hmem with hapart | ⟨hsame, hlibrary⟩
  · rw [hapart.startsWith_eq_false hunder] at hwithin
    cases hwithin
  · have hreports : reported.contains file.1 = true := by
      rw [PathTable.contains_eq_isSome_get?, hget, Option.isSome_some]
    obtain ⟨-, hlibraryFile⟩ := no_renewal_of_untouched hlibrary hreports hunder huntouched
    exact ⟨(isLibraryFile_congr hsame).1 hlibraryFile, _, hmem, hsame⟩

section

variable (hstays : ∀ event ∈ history, event.StaysWithin)
  (honly : ∀ event ∈ history, event.KeepsToLibrary root)
  (hroot : target.root.Same root)
  (htarget : target.isLibrary = true ∨
    ∀ event ∈ history, ¬ event.IsRunOf fun ran => ran.root.Same root)

include hstays honly hroot htarget

/-- Without the files that the run supersedes, nothing is in view within the root. -/
theorem within_dropAll_superseded :
    ((empty.afterAll history).view.dropAll ((empty.afterAll history).superseded target)).within
      root = .empty := by
  refine congrArg DiagnosticView.mk (PathTable.eq_of_entries_eq ?_)
  refine List.filter_eq_nil_iff.2 ?_
  intro file hfile hwithin
  have hleft := (hasNoEmptyFile_afterAll history).dropAll
    ((empty.afterAll history).superseded target) file hfile
  rw [← DiagnosticView.diagnosticsOf_of_mem_files hfile, DiagnosticView.diagnosticsOf_dropAll]
    at hleft
  split at hleft
  · exact hleft rfl
  · rename_i hkept
    obtain ⟨old, hold, hsame⟩ := DiagnosticView.exists_mem_files_of_ne_nil hleft
    have holdWithin : old.1.startsWith root = true := by
      rw [Path.startsWith_congr root hsame]
      exact hwithin
    obtain ⟨hlibraryFile, event, hevent, hrun⟩ :=
      isLibraryFile_of_mem_files hstays honly hold holdWithin
    rcases htarget with hlibrary | hfirst
    · refine hkept ((any_superseded_iff history target file.1).2 ⟨hlibrary, ?_⟩)
      exact (isLibraryFile_congr hroot).2 ((isLibraryFile_congr_path hsame).1 hlibraryFile)
    · exact hfirst event hevent hrun

/-- After the run, the view within the root is what the run reported. -/
theorem within_enter_eq
    (hfiles : files.OwnWithin root)
    (time : TimeOfDay) :
    ((empty.afterAll history).enter target files time).view.within root = ⟨files⟩ := by
  have hentry : ∀ file ∈ files.entries,
      file.1.startsWith root = true ∧ file.2 ≠ [] := by
    intro file hfile
    obtain ⟨hunder, hnonempty, -⟩ := hfiles file.1 file.2 (PathTable.get?_of_mem hfile)
    exact ⟨hunder, hnonempty⟩
  have hview : ((empty.afterAll history).enter target files time).view.within root =
      (DiagnosticView.ofTable files).within root := by
    refine DiagnosticView.within_replaceAll_congr ?_ files
    rw [within_dropAll_superseded hstays honly hroot htarget]
    rfl
  rw [hview, DiagnosticView.ofTable_eq fun file hfile => (hentry file hfile).2]
  refine congrArg DiagnosticView.mk (PathTable.eq_of_entries_eq ?_)
  exact List.filter_eq_self.2 fun file hfile => (hentry file hfile).1

end

end LintLedger
end TargetLint
