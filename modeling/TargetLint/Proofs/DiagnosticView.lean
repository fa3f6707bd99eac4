import TargetLint.DiagnosticView
import TargetLint.Proofs.PathTable
import Mathlib.Data.Set.Card

/-!
# The view after several replacements

What a file has after many files were replaced or removed at once, and how the
entries of a view relate to what files have: no operation leaves a file without
diagnostics in the view, so the entries are exactly the files that have some.
-/

namespace TargetLint
namespace DiagnosticView

/-- What a file has depends on what its path is, not on how it is spelled. -/
theorem diagnosticsOf_congr
    (view : DiagnosticView)
    {p q : Path}
    (h : p.Same q) :
    view.diagnosticsOf p = view.diagnosticsOf q := by
  rw [diagnosticsOf, diagnosticsOf, view.table.get?_congr h]

/-- After `dropAll`, the files of the list have no diagnostics and the others what they had. -/
theorem diagnosticsOf_dropAll
    (view : DiagnosticView)
    (paths : List Path)
    (query : Path) :
    (view.dropAll paths).diagnosticsOf query =
      if paths.any (fun path => path.Same query) then [] else view.diagnosticsOf query := by
  induction paths generalizing view with
  | nil => rfl
  | cons path rest ih =>
      change ((view.drop path).dropAll rest).diagnosticsOf query = _
      rw [ih, diagnosticsOf_drop, List.any_cons]
      by_cases hpath : path.Same query <;> simp [hpath]

/-- After `replaceAll`, the files of the table have its diagnostics and the others what they had. -/
theorem diagnosticsOf_replaceAll
    (view : DiagnosticView)
    (files : DiagnosticTable)
    (query : Path) :
    (view.replaceAll files).diagnosticsOf query =
      (files.get? query).getD (view.diagnosticsOf query) := by
  obtain ⟨entries, distinct⟩ := files
  simp only [replaceAll, PathTable.get?]
  induction entries generalizing view with
  | nil => rfl
  | cons first rest ih =>
      rw [List.pairwise_cons] at distinct
      rw [List.foldl_cons, ih (view.replace first.1 first.2) distinct.2, diagnosticsOf_replace]
      by_cases hfirst : first.1.Same query
      · have hrest : rest.find? (fun entry => decide (entry.1.Same query)) = none := by
          rw [List.find?_eq_none]
          intro entry hentry hsame
          have hquery : entry.1.Same query := of_decide_eq_true hsame
          exact distinct.1 entry hentry (hfirst.trans hquery.symm)
        simp [hrest, hfirst]
      · simp [hfirst]

/-- Every file of the view has diagnostics. -/
def HasNoEmptyFile (view : DiagnosticView) : Prop :=
  ∀ file ∈ view.files, file.2 ≠ []

theorem hasNoEmptyFile_empty : empty.HasNoEmptyFile := by
  intro file hfile
  cases hfile

theorem HasNoEmptyFile.replace
    {view : DiagnosticView}
    (h : view.HasNoEmptyFile)
    (path : Path)
    (diagnostics : List Diagnostic) :
    (view.replace path diagnostics).HasNoEmptyFile := by
  intro file hfile
  by_cases hempty : diagnostics = []
  · simp only [DiagnosticView.replace, hempty, if_true] at hfile
    exact h file (List.mem_filter.1 hfile).1
  · simp only [DiagnosticView.replace, hempty, if_false] at hfile
    rcases PathTable.mem_entries_set hfile with hold | ⟨-, -, -, hvalue⟩ | ⟨-, rfl⟩
    · exact h file hold
    · rw [hvalue]
      exact hempty
    · exact hempty

theorem HasNoEmptyFile.replaceAll
    {view : DiagnosticView}
    (h : view.HasNoEmptyFile)
    (files : DiagnosticTable) :
    (view.replaceAll files).HasNoEmptyFile := by
  unfold DiagnosticView.replaceAll
  induction files.entries generalizing view with
  | nil => exact h
  | cons first rest ih => exact ih (h.replace first.1 first.2)

theorem HasNoEmptyFile.dropAll
    {view : DiagnosticView}
    (h : view.HasNoEmptyFile)
    (paths : List Path) :
    (view.dropAll paths).HasNoEmptyFile := by
  induction paths generalizing view with
  | nil => exact h
  | cons path rest ih =>
      refine ih ?_
      intro file hfile
      exact h file (List.mem_filter.1 hfile).1

theorem HasNoEmptyFile.dropWithin
    {view : DiagnosticView}
    (h : view.HasNoEmptyFile)
    (directory : Path) :
    (view.dropWithin directory).HasNoEmptyFile := by
  intro file hfile
  exact h file (List.mem_filter.1 hfile).1

/-- Files that are put into the empty view are its files, unless some have no diagnostics. -/
theorem ofTable_eq
    {files : DiagnosticTable}
    (h : ∀ file ∈ files.entries, file.2 ≠ []) :
    ofTable files = ⟨files⟩ := by
  obtain ⟨entries, distinct⟩ := files
  suffices hentries : (ofTable ⟨entries, distinct⟩).table.entries = entries from
    congrArg DiagnosticView.mk (PathTable.eq_of_entries_eq hentries)
  induction entries using List.reverseRecOn with
  | nil => rfl
  | append_singleton before last ih =>
      obtain ⟨hdistinct, -, hnew⟩ := List.pairwise_append.1 distinct
      have hlast : last.2 ≠ [] := h last (by simp)
      have hbefore := ih hdistinct fun file hfile => h file (List.mem_append_left _ hfile)
      have hsplit : ofTable ⟨before ++ [last], distinct⟩ =
          (ofTable ⟨before, hdistinct⟩).replace last.1 last.2 := by
        simp [ofTable, replaceAll]
      rw [hsplit, replace, if_neg hlast, PathTable.entries_set_of_forall_not_same, hbefore]
      intro file hfile
      rw [hbefore] at hfile
      exact hnew file hfile last (List.mem_singleton_self last)

/-- An entry holds what its file has. -/
theorem diagnosticsOf_of_mem_files
    {view : DiagnosticView}
    {file : Path × List Diagnostic}
    (h : file ∈ view.files) :
    view.diagnosticsOf file.1 = file.2 := by
  rw [diagnosticsOf, PathTable.get?_of_mem h, Option.getD_some]

/-- A file that has diagnostics has an entry. -/
theorem exists_mem_files_of_ne_nil
    {view : DiagnosticView}
    {path : Path}
    (h : view.diagnosticsOf path ≠ []) :
    ∃ file ∈ view.files, file.1.Same path := by
  cases hget : view.table.get? path with
  | none => simp [diagnosticsOf, hget] at h
  | some diagnostics =>
      obtain ⟨key, hsame, hmem⟩ := PathTable.mem_of_get? hget
      exact ⟨(key, diagnostics), hmem, hsame⟩

/-- The entries are exactly the files that have diagnostics. -/
theorem HasNoEmptyFile.exists_mem_files_iff
    {view : DiagnosticView}
    (h : view.HasNoEmptyFile)
    (path : Path) :
    (∃ file ∈ view.files, file.1.Same path) ↔ view.diagnosticsOf path ≠ [] := by
  constructor
  · rintro ⟨file, hfile, hsame⟩
    rw [← view.diagnosticsOf_congr hsame, diagnosticsOf_of_mem_files hfile]
    exact h file hfile
  · exact exists_mem_files_of_ne_nil

/-- The files within a directory that have diagnostics, each told by its components. -/
def reportedWithin
    (view : DiagnosticView)
    (directory : Path) :
    Set (List Path.Component) :=
  {components | ∃ path : Path, path.components = components ∧
    path.startsWith directory = true ∧ view.diagnosticsOf path ≠ []}

/-- `countWithin` is the number of files within the directory that have diagnostics. -/
theorem HasNoEmptyFile.countWithin_eq_encard
    {view : DiagnosticView}
    (h : view.HasNoEmptyFile)
    (directory : Path) :
    (view.countWithin directory : ℕ∞) = (view.reportedWithin directory).encard := by
  have hmem : view.reportedWithin directory =
      ((view.table.keys.filter fun path => path.startsWith directory).map
        Path.components).toFinset := by
    ext components
    simp only [reportedWithin, Set.mem_ofPred_eq, List.coe_toFinset, List.mem_map,
      List.mem_filter, PathTable.keys]
    constructor
    · rintro ⟨path, rfl, hwithin, hreported⟩
      obtain ⟨file, hfile, hsame⟩ := exists_mem_files_of_ne_nil hreported
      refine ⟨file.1, ⟨⟨file, hfile, rfl⟩, ?_⟩, hsame⟩
      rw [Path.startsWith_congr directory hsame, hwithin]
    · rintro ⟨path, ⟨⟨file, hfile, rfl⟩, hwithin⟩, rfl⟩
      have hreported := (h.exists_mem_files_iff file.1).1 ⟨file, hfile, Path.Same.refl _⟩
      exact ⟨file.1, rfl, hwithin, hreported⟩
  have hnodup :
      ((view.table.keys.filter fun path => path.startsWith directory).map
        Path.components).Nodup := by
    refine List.pairwise_map.2 (List.Pairwise.filter _ ?_)
    exact List.pairwise_map.2 view.table.distinct
  rw [hmem, Set.encard_coe_eq_coe_finsetCard, List.toFinset_card_of_nodup hnodup, List.length_map,
    countWithin, List.countP_eq_length_filter]

/-- What `dropWithin` removes is what `countWithin` counts. -/
theorem countWithin_add_size_dropWithin
    (view : DiagnosticView)
    (directory : Path) :
    view.countWithin directory + (view.dropWithin directory).size = view.size := by
  have hsplit := List.length_eq_countP_add_countP
    (fun entry : Path × List Diagnostic => entry.1.startsWith directory) (l := view.table.entries)
  simp only [countWithin, PathTable.keys, List.countP_map, dropWithin, size, PathTable.size,
    PathTable.entries_filterKeys, ← List.countP_eq_length_filter]
  rw [hsplit]
  congr 2
  · funext entry
    simp

end DiagnosticView
end TargetLint
