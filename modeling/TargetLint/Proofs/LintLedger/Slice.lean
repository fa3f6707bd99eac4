import TargetLint.Overview
import TargetLint.Proofs.LintLedger.Provenance

/-!
# The part of a ledger that belongs to one root

What can be asked about a root is a function of a slice of the ledger: the files of the
view within the root, and the record of the root up to the time of the last run.  An
operation of the root changes the slice in a way that depends on nothing else of the
ledger, and an operation of a root apart from it leaves the slice as it is.
-/

namespace TargetLint

namespace DiagnosticView

/-- The part of a view within a directory. -/
def within (view : DiagnosticView) (directory : Path) : DiagnosticView :=
  ⟨view.table.filterKeys fun path => path.startsWith directory⟩

variable {view other : DiagnosticView} {directory : Path}

theorem files_within
    (view : DiagnosticView)
    (directory : Path) :
    (view.within directory).files =
      view.files.filter fun file => file.1.startsWith directory :=
  rfl

theorem within_replace
    (view : DiagnosticView)
    (directory path : Path)
    (diagnostics : List Diagnostic) :
    (view.replace path diagnostics).within directory =
      if path.startsWith directory then
        (view.within directory).replace path diagnostics
      else
        view.within directory := by
  have hkeep : ∀ p q : Path, p.Same q → p.startsWith directory = q.startsWith directory :=
    fun _ _ => Path.startsWith_congr directory
  unfold within replace
  cases hwithin : path.startsWith directory with
  | true =>
      by_cases hempty : diagnostics = []
      · simp [hempty, PathTable.filterKeys_erase]
      · simp [hempty, PathTable.filterKeys_set_of_keep hkeep view.table hwithin]
  | false =>
      by_cases hempty : diagnostics = []
      · simp [hempty, PathTable.filterKeys_erase_of_not_keep hkeep view.table hwithin]
      · simp [hempty, PathTable.filterKeys_set_of_not_keep hkeep view.table hwithin]

theorem within_drop
    (view : DiagnosticView)
    (directory path : Path) :
    (view.drop path).within directory = (view.within directory).drop path := by
  rw [within, drop, drop, PathTable.filterKeys_erase]
  rfl

theorem within_replaceAll_congr
    (h : view.within directory = other.within directory)
    (files : DiagnosticTable) :
    (view.replaceAll files).within directory = (other.replaceAll files).within directory := by
  unfold replaceAll
  induction files.entries generalizing view other with
  | nil => exact h
  | cons file rest ih =>
      refine ih ?_
      rw [within_replace, within_replace, h]

theorem within_dropAll_congr
    (h : view.within directory = other.within directory)
    (paths : List Path) :
    (view.dropAll paths).within directory = (other.dropAll paths).within directory := by
  induction paths generalizing view other with
  | nil => exact h
  | cons path rest ih =>
      refine ih ?_
      rw [within_drop, within_drop, h]

theorem within_dropWithin_congr
    (h : view.within directory = other.within directory)
    (base : Path) :
    (view.dropWithin base).within directory = (other.dropWithin base).within directory := by
  have hcomm : ∀ view : DiagnosticView,
      (view.dropWithin base).within directory = (view.within directory).dropWithin base := by
    intro view
    rw [within, dropWithin, PathTable.filterKeys_filterKeys_comm]
    rfl
  rw [hcomm, hcomm, h]

theorem within_replaceAll_of_outside
    {files : DiagnosticTable}
    (h : ∀ file ∈ files.entries, file.1.startsWith directory = false)
    (view : DiagnosticView) :
    (view.replaceAll files).within directory = view.within directory := by
  unfold replaceAll
  generalize files.entries = entries at h
  induction entries generalizing view with
  | nil => rfl
  | cons file rest ih =>
      obtain ⟨hfile, hrest⟩ := List.forall_mem_cons.1 h
      rw [List.foldl_cons, ih _ hrest, within_replace, hfile, if_neg Bool.false_ne_true]

theorem within_dropAll_of_outside
    {paths : List Path}
    (h : ∀ path ∈ paths, path.startsWith directory = false)
    (view : DiagnosticView) :
    (view.dropAll paths).within directory = view.within directory := by
  have hkeep : ∀ p q : Path, p.Same q → p.startsWith directory = q.startsWith directory :=
    fun _ _ => Path.startsWith_congr directory
  induction paths generalizing view with
  | nil => rfl
  | cons path rest ih =>
      obtain ⟨hpath, hrest⟩ := List.forall_mem_cons.1 h
      change ((view.drop path).dropAll rest).within directory = _
      rw [ih hrest, within, drop,
        PathTable.filterKeys_erase_of_not_keep hkeep view.table hpath]
      rfl

theorem within_dropWithin_of_apart
    {base : Path}
    (h : ∀ path : Path, path.startsWith directory = true → path.startsWith base = false)
    (view : DiagnosticView) :
    (view.dropWithin base).within directory = view.within directory := by
  refine congrArg DiagnosticView.mk (PathTable.eq_of_entries_eq ?_)
  simp only [dropWithin, PathTable.entries_filterKeys, List.filter_filter]
  refine List.filter_congr ?_
  intro file _
  cases hwithin : file.1.startsWith directory with
  | true => simp [h file.1 hwithin]
  | false => simp

theorem snapshot_eq_of_within_eq
    (h : view.within directory = other.within directory) :
    view.snapshot directory = other.snapshot directory := by
  have hfiles := congrArg files h
  rw [files_within, files_within] at hfiles
  rw [snapshot, snapshot, Snapshot.ofFiles, Snapshot.ofFiles, hfiles]

theorem overview_eq_of_within_eq
    {project : Project}
    (h : view.within project.root = other.within project.root) :
    Overview.ofView view project = Overview.ofView other project := by
  have hfiles := congrArg files h
  rw [files_within, files_within] at hfiles
  simp only [Overview.ofView, Overview.ofFiles, Project.covers, hfiles]

theorem countWithin_eq_of_within_eq
    (h : view.within directory = other.within directory) :
    view.countWithin directory = other.countWithin directory := by
  have hcount : ∀ view : DiagnosticView,
      view.countWithin directory = (view.within directory).files.length := by
    intro view
    rw [files_within, countWithin, PathTable.keys, List.countP_map, List.countP_eq_length_filter]
    rfl
  rw [hcount, hcount, h]

/-- The part within a directory depends on what the directory is, not on how it is spelled. -/
theorem within_congr
    (view : DiagnosticView)
    {p q : Path}
    (h : p.Same q) :
    view.within p = view.within q := by
  have hkeep : (fun path : Path => path.startsWith p) = fun path => path.startsWith q :=
    funext fun path => Path.startsWith_congr_base path h
  rw [within, within, hkeep]

end DiagnosticView

/-- The record but for the time of the last run. -/
def ProjectRecord.untimed (record : ProjectRecord) : ProjectRecord :=
  { record with lastRun := none }

theorem ProjectRecord.untimed_afterRun
    {record other : ProjectRecord}
    (h : record.untimed = other.untimed)
    (target : Target)
    (files : List Path)
    (time otherTime : TimeOfDay) :
    (record.afterRun target files time).untimed =
      (other.afterRun target files otherTime).untimed := by
  obtain ⟨libraryFiles, entries, hasLibraryRun, lastRun⟩ := record
  obtain ⟨otherFiles, otherEntries, otherHasRun, otherLastRun⟩ := other
  simp only [untimed, mk.injEq] at h
  obtain ⟨rfl, rfl, rfl, -⟩ := h
  unfold afterRun addEntry
  by_cases hlibrary : target.isLibrary = true
  · simp [hlibrary, untimed]
  · by_cases hentry : (mk libraryFiles entries hasLibraryRun lastRun).hasEntry target.entry = true
    · have hother : (mk libraryFiles entries hasLibraryRun otherLastRun).hasEntry target.entry =
          true := hentry
      simp [hlibrary, hentry, hother, untimed]
    · have hother : ¬ (mk libraryFiles entries hasLibraryRun otherLastRun).hasEntry target.entry =
          true := hentry
      simp [hlibrary, hentry, hother, untimed]

namespace LintLedger

/-- What a ledger knows of one root: the files within it, and its record but for the time. -/
structure Slice where
  view : DiagnosticView
  record : Option ProjectRecord

/-- The slice of a ledger that belongs to a root. -/
def slice (ledger : LintLedger) (root : Path) : Slice :=
  ⟨ledger.view.within root, (ledger.projects.get? root).map ProjectRecord.untimed⟩

variable {ledger other : LintLedger} {root : Path}

theorem slice_congr
    (ledger : LintLedger)
    {p q : Path}
    (h : p.Same q) :
    ledger.slice p = ledger.slice q := by
  rw [slice, slice, ledger.view.within_congr h, ledger.projects.get?_congr h]

theorem within_eq_of_slice_eq
    (h : ledger.slice root = other.slice root) :
    ledger.view.within root = other.view.within root :=
  congrArg Slice.view h

theorem untimed_recordOf_eq_of_slice_eq
    (h : ledger.slice root = other.slice root) :
    (ledger.recordOf root).untimed = (other.recordOf root).untimed := by
  have hrecord : (ledger.projects.get? root).map ProjectRecord.untimed =
      (other.projects.get? root).map ProjectRecord.untimed :=
    congrArg Slice.record h
  have huntimed : ∀ ledger : LintLedger, (ledger.recordOf root).untimed =
      ((ledger.projects.get? root).map ProjectRecord.untimed).getD .empty := by
    intro ledger
    rw [recordOf]
    cases ledger.projects.get? root <;> rfl
  rw [huntimed, huntimed, hrecord]

theorem hasAnyRun_eq_of_slice_eq
    (h : ledger.slice root = other.slice root) :
    ledger.hasAnyRun root = other.hasAnyRun root := by
  have hrecord : (ledger.projects.get? root).map ProjectRecord.untimed =
      (other.projects.get? root).map ProjectRecord.untimed :=
    congrArg Slice.record h
  have hsome := congrArg Option.isSome hrecord
  rw [Option.isSome_map, Option.isSome_map] at hsome
  rw [hasAnyRun, hasAnyRun, PathTable.contains_eq_isSome_get?, PathTable.contains_eq_isSome_get?,
    hsome]

theorem hasLintedEntry_eq_of_slice_eq
    (h : ledger.slice root = other.slice root)
    (path : Path) :
    ledger.hasLintedEntry root path = other.hasLintedEntry root path := by
  have hentries := congrArg ProjectRecord.entries (untimed_recordOf_eq_of_slice_eq h)
  simp only [ProjectRecord.untimed] at hentries
  rw [hasLintedEntry, hasLintedEntry, ProjectRecord.hasEntry, ProjectRecord.hasEntry, hentries]

theorem hasLinted_eq_of_slice_eq
    (h : ledger.slice root = other.slice root)
    {target : Target}
    (hroot : target.root.Same root) :
    ledger.hasLinted target = other.hasLinted target := by
  have hrecord := untimed_recordOf_eq_of_slice_eq h
  have hentries := congrArg ProjectRecord.entries hrecord
  have hlibrary := congrArg ProjectRecord.hasLibraryRun hrecord
  simp only [ProjectRecord.untimed] at hentries hlibrary
  rw [hasLinted, hasLinted, ledger.recordOf_congr hroot, other.recordOf_congr hroot,
    ProjectRecord.hasLinted, ProjectRecord.hasLinted, ProjectRecord.hasEntry,
    ProjectRecord.hasEntry, hentries, hlibrary]

theorem clearCount_eq_of_slice_eq
    {project : Project}
    (h : ledger.slice project.root = other.slice project.root) :
    ledger.clearCount project = other.clearCount project :=
  DiagnosticView.countWithin_eq_of_within_eq (within_eq_of_slice_eq h)

theorem superseded_eq_of_slice_eq
    (h : ledger.slice root = other.slice root)
    {target : Target}
    (hroot : target.root.Same root) :
    ledger.superseded target = other.superseded target := by
  have hfiles := congrArg ProjectRecord.libraryFiles (untimed_recordOf_eq_of_slice_eq h)
  simp only [ProjectRecord.untimed] at hfiles
  rw [superseded, superseded, ledger.recordOf_congr hroot, other.recordOf_congr hroot, hfiles]

theorem slice_enter_congr
    (h : ledger.slice root = other.slice root)
    {target : Target}
    (hroot : target.root.Same root)
    (files : DiagnosticTable)
    (time otherTime : TimeOfDay) :
    (ledger.enter target files time).slice root =
      (other.enter target files otherTime).slice root := by
  have hview : (ledger.enter target files time).view.within root =
      (other.enter target files otherTime).view.within root := by
    rw [enter, enter, superseded_eq_of_slice_eq h hroot]
    refine DiagnosticView.within_replaceAll_congr ?_ files
    exact DiagnosticView.within_dropAll_congr (within_eq_of_slice_eq h) _
  have hrecord := ProjectRecord.untimed_afterRun (untimed_recordOf_eq_of_slice_eq h) target
    files.keys time otherTime
  rw [slice, slice, hview, Slice.mk.injEq]
  refine ⟨rfl, ?_⟩
  simp only [enter, PathTable.get?_set, if_pos hroot, Option.map_some, ledger.recordOf_congr hroot,
    other.recordOf_congr hroot, hrecord]

theorem slice_clear_congr
    (h : ledger.slice root = other.slice root)
    {project : Project}
    (hroot : project.root.Same root) :
    (ledger.clear project).slice root = (other.clear project).slice root := by
  have hview : (ledger.clear project).view.within root = (other.clear project).view.within root :=
    DiagnosticView.within_dropWithin_congr (within_eq_of_slice_eq h) project.root
  have hrecord : ∀ ledger : LintLedger,
      ((ledger.clear project).projects.get? root).map ProjectRecord.untimed =
        (ledger.slice root).record.map fun record => { record with libraryFiles := [] } := by
    intro ledger
    rw [slice, clear, ← ledger.projects.get?_congr hroot]
    cases hget : ledger.projects.get? project.root with
    | none => simp [← ledger.projects.get?_congr hroot, hget]
    | some record =>
        simp only [PathTable.get?_set, if_pos hroot, Option.map_some]
        rfl
  rw [slice, slice, hview, hrecord, hrecord, h]

/-- The library files that are remembered for a root lie within it. -/
def LibraryFilesWithin (ledger : LintLedger) : Prop :=
  ∀ root, ∀ file ∈ (ledger.recordOf root).libraryFiles, file.startsWith root = true

theorem libraryFilesWithin_empty : empty.LibraryFilesWithin := by
  intro root file hfile
  cases hfile

theorem startsWith_of_mem_keys
    {files : DiagnosticTable}
    (h : files.OwnWithin root)
    {path : Path}
    (hpath : path ∈ files.keys) :
    path.startsWith root = true := by
  obtain ⟨entry, hentry, rfl⟩ := List.mem_map.1 hpath
  exact (h entry.1 entry.2 (PathTable.get?_of_mem hentry)).1

theorem LibraryFilesWithin.after
    (h : ledger.LibraryFilesWithin)
    {event : LedgerEvent}
    (hstays : event.StaysWithin) :
    (ledger.after event).LibraryFilesWithin := by
  intro root file hfile
  cases event with
  | enter target files time =>
      rw [LintLedger.after, recordOf_enter] at hfile
      by_cases hroot : target.root.Same root
      · rw [if_pos hroot, libraryFiles_afterRun] at hfile
        rw [← Path.startsWith_congr_base file hroot]
        split at hfile
        · exact startsWith_of_mem_keys hstays hfile
        · exact h target.root file hfile
      · rw [if_neg hroot] at hfile
        exact h root file hfile
  | clear project =>
      rw [LintLedger.after, recordOf_clear] at hfile
      split at hfile
      · cases hfile
      · exact h root file hfile

/-- An operation of a root apart from this one leaves the slice of this one as it is. -/
theorem slice_after_of_apart
    {event : LedgerEvent}
    (hapart : event.root.Apart root)
    (hstays : event.StaysWithin)
    (hlibrary : ledger.LibraryFilesWithin) :
    (ledger.after event).slice root = ledger.slice root := by
  have hnotSame : ¬ event.root.Same root := hapart.not_same
  cases event with
  | enter target files time =>
      have hfiles : ∀ file ∈ files.entries, file.1.startsWith root = false := by
        intro file hfile
        exact hapart.startsWith_eq_false (startsWith_of_mem_keys hstays (List.mem_map_of_mem hfile))
      have hsuperseded : ∀ path ∈ ledger.superseded target, path.startsWith root = false := by
        intro path hpath
        unfold superseded at hpath
        split at hpath
        · exact hapart.startsWith_eq_false (hlibrary target.root path hpath)
        · cases hpath
      have hview : (ledger.enter target files time).view.within root = ledger.view.within root := by
        rw [enter, DiagnosticView.within_replaceAll_of_outside hfiles,
          DiagnosticView.within_dropAll_of_outside hsuperseded]
      have hroot : ¬ target.root.Same root := hnotSame
      rw [after, slice, slice, hview]
      simp [enter, PathTable.get?_set, hroot]
  | clear project =>
      have hview : (ledger.clear project).view.within root = ledger.view.within root := by
        refine DiagnosticView.within_dropWithin_of_apart ?_ ledger.view
        intro path hpath
        exact hapart.symm.startsWith_eq_false hpath
      have hroot : ¬ project.root.Same root := hnotSame
      rw [after, slice, slice, hview, clear]
      cases ledger.projects.get? project.root <;> simp [PathTable.get?_set, hroot]

end LintLedger
end TargetLint
