import TargetLint.Proofs.LintLedger.LastTouch

/-!
# What a library run does to the results of other targets

A library and another target of its project can share a file.  What a library run
takes away is told by file, not by the target that wrote last: the files that the
previous library run of the root reported on, unless the root has been cleared since.
The results of another target outlast a library run that is silent about their file
if and only if the file is none of these.
-/

namespace TargetLint
namespace LintLedger

/-- The path has diagnostics, and the last operation that touched it was the run of no library. -/
structure IsSiblingFile (path : Path) (history : List LedgerEvent) : Prop where
  reported : (empty.afterAll history).view.diagnosticsOf path ≠ []
  written : ∃ target files time, target.isLibrary = false ∧
    LastWhere (Touches path) history (.enter target files time)

variable {history : List LedgerEvent} {target : Target} {files : DiagnosticTable} {path : Path}

theorem touches_enter_iff_of_silent
    (time : TimeOfDay)
    (hlibrary : target.isLibrary = true)
    (hsilent : files.contains path = false) :
    Touches path history (.enter target files time) ↔
      IsLibraryFile target.root path history := by
  constructor
  · rintro (hreports | ⟨-, hfile⟩)
    · rw [hsilent] at hreports
      cases hreports
    · exact hfile
  · intro hfile
    exact Or.inr ⟨hlibrary, hfile⟩

theorem IsSiblingFile.snoc_of_not_touches
    (h : IsSiblingFile path history)
    {event : LedgerEvent}
    (hevent : ¬ Touches path history event) :
    IsSiblingFile path (history ++ [event]) := by
  obtain ⟨sibling, reported, time, hsibling, hlast⟩ := h.written
  constructor
  · rw [afterAll_snoc, diagnosticsOf_after_of_not_touches hevent]
    exact h.reported
  · exact ⟨sibling, reported, time, hsibling, (lastWhere_snoc_of_not_fits hevent).2 hlast⟩

/-- A library run takes away what a library file has, if it is silent about the file. -/
theorem diagnosticsOf_enter_of_isLibraryFile
    (time : TimeOfDay)
    (hlibrary : target.isLibrary = true)
    (hsilent : files.contains path = false)
    (hfile : IsLibraryFile target.root path history) :
    ((empty.afterAll history).enter target files time).view.diagnosticsOf path = [] := by
  have htouches := (touches_enter_iff_of_silent time hlibrary hsilent).2 hfile
  have hleaves : (LedgerEvent.enter target files time).leaves path = [] := by
    rw [LedgerEvent.leaves, PathTable.get?_eq_none_iff.2 hsilent, Option.getD_none]
  exact (diagnosticsOf_after_of_touches htouches).trans hleaves

/--
A library run that is silent about a sibling's file leaves what it has if and only if the file is
no library file of the root; it then remains the sibling's.  A library file has nothing any more.
-/
theorem library_run_spares_sibling_iff
    (time : TimeOfDay)
    (hlibrary : target.isLibrary = true)
    (hsibling : IsSiblingFile path history)
    (hsilent : files.contains path = false) :
    (((empty.afterAll history).enter target files time).view.diagnosticsOf path =
        (empty.afterAll history).view.diagnosticsOf path ↔
      ¬ IsLibraryFile target.root path history) ∧
    (¬ IsLibraryFile target.root path history →
      IsSiblingFile path (history ++ [.enter target files time])) ∧
    (IsLibraryFile target.root path history →
      ((empty.afterAll history).enter target files time).view.diagnosticsOf path = []) := by
  have htouches : Touches path history (.enter target files time) ↔
      IsLibraryFile target.root path history :=
    touches_enter_iff_of_silent time hlibrary hsilent
  refine ⟨⟨?_, ?_⟩, ?_, ?_⟩
  · intro hunchanged hfile
    rw [diagnosticsOf_enter_of_isLibraryFile time hlibrary hsilent hfile] at hunchanged
    exact hsibling.reported hunchanged.symm
  · intro hfile
    exact diagnosticsOf_after_of_not_touches (mt htouches.1 hfile)
  · intro hfile
    exact hsibling.snoc_of_not_touches (mt htouches.1 hfile)
  · exact diagnosticsOf_enter_of_isLibraryFile time hlibrary hsilent

def sharedLibrary : Target :=
  ⟨"app", .library, ⟨"/w/app/src/lib.rs"⟩, ⟨"/w/app"⟩⟩

def sharingBinary : Target :=
  ⟨"app", .binary, ⟨"/w/app/src/main.rs"⟩, ⟨"/w/app"⟩⟩

/-- A run's report with one warning on one file. -/
def oneWarning (path : Path) (message : String) : DiagnosticTable :=
  PathTable.empty.set path [⟨path, .origin, .warning, message, none⟩]

/-- The library reports on a file, and then the binary on the same file or on another one. -/
def sharedHistory (path : Path) : List LedgerEvent :=
  [.enter sharedLibrary (oneWarning ⟨"/w/app/src/a.rs"⟩ "from the library") default,
    .enter sharingBinary (oneWarning path "from the binary") default]

theorem isSiblingFile_sharedHistory
    (path : Path)
    (hreported : (empty.afterAll (sharedHistory path)).view.diagnosticsOf path ≠ []) :
    IsSiblingFile path (sharedHistory path) := by
  refine ⟨hreported, sharingBinary, oneWarning path "from the binary", default, rfl, ?_⟩
  have htouches : Touches path
      [.enter sharedLibrary (oneWarning ⟨"/w/app/src/a.rs"⟩ "from the library") default]
      (.enter sharingBinary (oneWarning path "from the binary") default) := by
    refine Or.inl ?_
    rw [oneWarning, PathTable.contains_eq_isSome_get?, PathTable.get?_set,
      if_pos (Path.Same.refl path)]
    rfl
  exact (lastWhere_snoc_of_fits htouches).2 rfl

/-- What the binary reports on its own file outlasts the next library run. -/
theorem library_run_spares_own_file_of_binary :
    IsSiblingFile ⟨"/w/app/src/main.rs"⟩ (sharedHistory ⟨"/w/app/src/main.rs"⟩) ∧
      ((empty.afterAll (sharedHistory ⟨"/w/app/src/main.rs"⟩)).enter sharedLibrary .empty
        default).view.diagnosticsOf ⟨"/w/app/src/main.rs"⟩ =
      (empty.afterAll (sharedHistory ⟨"/w/app/src/main.rs"⟩)).view.diagnosticsOf
        ⟨"/w/app/src/main.rs"⟩ := by
  have hsibling : IsSiblingFile ⟨"/w/app/src/main.rs"⟩ (sharedHistory ⟨"/w/app/src/main.rs"⟩) :=
    isSiblingFile_sharedHistory _ (by decide)
  refine ⟨hsibling, ?_⟩
  refine (library_run_spares_sibling_iff default rfl hsibling rfl).1.2 ?_
  rw [← any_libraryFiles_iff_isLibraryFile]
  decide

/-- What the binary reports on a file that it shares with the library does not always outlast it. -/
theorem not_forall_library_run_spares_sibling :
    ¬ ∀ (history : List LedgerEvent) (target : Target) (files : DiagnosticTable)
        (time : TimeOfDay) (path : Path),
      target.isLibrary = true → IsSiblingFile path history → files.contains path = false →
      ((empty.afterAll history).enter target files time).view.diagnosticsOf path =
        (empty.afterAll history).view.diagnosticsOf path := by
  intro hspares
  have hsibling : IsSiblingFile ⟨"/w/app/src/a.rs"⟩ (sharedHistory ⟨"/w/app/src/a.rs"⟩) :=
    isSiblingFile_sharedHistory _ (by decide)
  have hunchanged := hspares _ sharedLibrary .empty default _ rfl hsibling rfl
  revert hunchanged
  decide

end LintLedger
end TargetLint
