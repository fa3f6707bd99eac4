import TargetLint.Proofs.History
import TargetLint.Proofs.LintLedger.Operation

/-!
# What counts as linted

A ledger can be asked whether a target or a file has been linted, whether a project has
been, and when it was last.  Each answer is a function of the runs in the history: of
which targets there were runs, and which run of the root was the last.  A clearing
answers nothing, and neither does a run of another root.
-/

namespace TargetLint

/-- A run of a target counts for another one of its project: both are libraries or start alike. -/
def Target.CountsFor (ran target : Target) : Prop :=
  if ran.isLibrary then
    target.isLibrary = true
  else
    target.isLibrary = false ∧ ran.entry.Same target.entry

namespace Target

variable {ran target : Target}

theorem countsFor_iff_of_isLibrary
    (h : target.isLibrary = true) :
    ran.CountsFor target ↔ ran.isLibrary = true := by
  cases hran : ran.isLibrary <;> simp [CountsFor, hran, h]

theorem countsFor_iff_of_not_isLibrary
    (h : target.isLibrary = false) :
    ran.CountsFor target ↔ ran.isLibrary = false ∧ ran.entry.Same target.entry := by
  cases hran : ran.isLibrary <;> simp [CountsFor, hran, h]

end Target

namespace ProjectRecord

theorem hasEntry_addEntry_iff
    {record : ProjectRecord}
    {entry path : Path} :
    (record.addEntry entry).hasEntry path = true ↔
      record.hasEntry path = true ∨ entry.Same path := by
  rw [addEntry]
  split
  · rename_i hknown
    refine ⟨Or.inl, ?_⟩
    rintro (hpath | hsame)
    · exact hpath
    · obtain ⟨other, hother, hentry⟩ := List.any_eq_true.1 hknown
      exact List.any_eq_true.2
        ⟨other, hother, decide_eq_true ((of_decide_eq_true hentry).trans hsame)⟩
  · simp [hasEntry]

theorem hasLinted_afterRun_iff
    {record : ProjectRecord}
    {ran target : Target}
    {files : List Path}
    {time : TimeOfDay} :
    (record.afterRun ran files time).hasLinted target = true ↔
      record.hasLinted target = true ∨ ran.CountsFor target := by
  have hentry : ∀ other : ProjectRecord, ∀ lastRun,
      { other with lastRun := lastRun }.hasEntry target.entry = other.hasEntry target.entry :=
    fun _ _ => rfl
  rw [afterRun, hasLinted, hasLinted, Target.CountsFor]
  cases hran : ran.isLibrary with
  | true =>
      cases htarget : target.isLibrary with
      | true => simp
      | false => simp [hasEntry]
  | false =>
      cases htarget : target.isLibrary with
      | true =>
          have hsame : (record.addEntry ran.entry).hasLibraryRun = record.hasLibraryRun := by
            rw [addEntry]
            split <;> rfl
          simp [hsame]
      | false =>
          have hadded : (record.addEntry ran.entry).hasEntry target.entry = true ↔ _ :=
            hasEntry_addEntry_iff
          simpa [hentry] using hadded

/-- A run of any target is the last one for now. -/
@[simp] theorem lastRun_afterRun
    (record : ProjectRecord)
    (target : Target)
    (files : List Path)
    (time : TimeOfDay) :
    (record.afterRun target files time).lastRun = some time := by
  rw [afterRun]
  split <;> rfl

end ProjectRecord

namespace LedgerEvent

/-- The operation is a run of a target that passes the test. -/
def IsRunOf (fits : Target → Prop) : LedgerEvent → Prop
  | enter target _ _ => fits target
  | clear _ => False

theorem IsRunOf.imp
    {fits others : Target → Prop}
    {event : LedgerEvent}
    (h : event.IsRunOf fits)
    (himp : ∀ target, fits target → others target) :
    event.IsRunOf others := by
  cases event with
  | enter target files time => exact himp target h
  | clear project => exact h

end LedgerEvent

namespace LintLedger

variable {ledger : LintLedger} {ran target : Target} {files : DiagnosticTable} {time : TimeOfDay}
  {event : LedgerEvent} {root : Path}

/-- What counts as linted after a run of a target of the same project. -/
theorem hasLinted_enter_iff
    (hroot : ran.root.Same target.root) :
    (ledger.enter ran files time).hasLinted target = true ↔
      ledger.hasLinted target = true ∨ ran.CountsFor target := by
  rw [hasLinted, recordOf_enter, if_pos hroot, ProjectRecord.hasLinted_afterRun_iff, hasLinted,
    ledger.recordOf_congr hroot]

theorem hasLinted_after_iff
    (ledger : LintLedger)
    (event : LedgerEvent)
    (target : Target) :
    (ledger.after event).hasLinted target = true ↔
      ledger.hasLinted target = true ∨
        event.IsRunOf fun ran => ran.CountsFor target ∧ ran.root.Same target.root := by
  cases event with
  | enter ran files time =>
      rw [after, LedgerEvent.IsRunOf]
      by_cases hroot : ran.root.Same target.root
      · simp [hasLinted_enter_iff hroot, hroot]
      · simp [hasLinted, recordOf_enter, hroot]
  | clear project =>
      rw [after, LedgerEvent.IsRunOf, or_false, hasLinted, recordOf_clear]
      split <;> rfl

/-- A file has been linted as the entry of a target just if a binary that starts at it has been. -/
theorem hasLintedEntry_eq_hasLinted
    (ledger : LintLedger)
    (root path : Path) :
    ledger.hasLintedEntry root path = ledger.hasLinted ⟨"", .binary, path, root⟩ :=
  rfl

theorem hasAnyRun_after_iff
    (ledger : LintLedger)
    (event : LedgerEvent)
    (root : Path) :
    (ledger.after event).hasAnyRun root = true ↔
      ledger.hasAnyRun root = true ∨ event.IsRunOf fun ran => ran.root.Same root := by
  cases event with
  | enter ran files time =>
      rw [after, hasAnyRun_enter, LedgerEvent.IsRunOf, Bool.or_eq_true, decide_eq_true_eq, or_comm]
  | clear project =>
      rw [after, hasAnyRun_clear, LedgerEvent.IsRunOf, or_false]

theorem lastRun_enter
    (ledger : LintLedger)
    (target : Target)
    (files : DiagnosticTable)
    (time : TimeOfDay)
    (root : Path) :
    (ledger.enter target files time).lastRun root =
      if target.root.Same root then some time else ledger.lastRun root := by
  rw [lastRun, recordOf_enter]
  split
  · exact ProjectRecord.lastRun_afterRun _ target files.keys time
  · rfl

theorem lastRun_after_of_not_isRunOf
    (ledger : LintLedger)
    (h : ¬ event.IsRunOf fun ran => ran.root.Same root) :
    (ledger.after event).lastRun root = ledger.lastRun root := by
  cases event with
  | enter ran files time =>
      have hroot : ¬ ran.root.Same root := h
      rw [after, lastRun_enter, if_neg hroot]
  | clear project =>
      rw [after, lastRun, recordOf_clear]
      split <;> rfl

theorem isSome_lastRun_after_iff
    (ledger : LintLedger)
    (event : LedgerEvent)
    (root : Path) :
    ((ledger.after event).lastRun root).isSome = true ↔
      (ledger.lastRun root).isSome = true ∨ event.IsRunOf fun ran => ran.root.Same root := by
  by_cases hevent : event.IsRunOf fun ran => ran.root.Same root
  · cases event with
    | enter ran files time =>
        have hroot : ran.root.Same root := hevent
        simp [after, lastRun_enter, hroot, LedgerEvent.IsRunOf]
    | clear project => exact hevent.elim
  · rw [lastRun_after_of_not_isRunOf ledger hevent, or_iff_left hevent]

/-- What is no run of a root changes no answer about targets of the root. -/
theorem hasLinted_after_of_not_isRunOf
    (ledger : LintLedger)
    (h : ¬ event.IsRunOf fun ran => ran.root.Same root)
    (htarget : target.root.Same root) :
    (ledger.after event).hasLinted target = ledger.hasLinted target := by
  rw [Bool.eq_iff_iff, hasLinted_after_iff, or_iff_left]
  intro hrun
  exact h (hrun.imp fun ran hran => hran.2.trans htarget)

/-- What exactly certain runs make true, and nothing undoes, is true once there was such a run. -/
theorem afterAll_iff_exists_run
    (answer : LintLedger → Prop)
    {fits : Target → Prop}
    (hempty : ¬ answer empty)
    (hafter : ∀ ledger event, answer (ledger.after event) ↔ answer ledger ∨ event.IsRunOf fits)
    (history : List LedgerEvent) :
    answer (empty.afterAll history) ↔ ∃ event ∈ history, event.IsRunOf fits := by
  induction history using List.reverseRecOn with
  | nil => simpa using hempty
  | append_singleton history event ih =>
      rw [afterAll_snoc, hafter, ih]
      simp [or_and_right, exists_or]

theorem hasLinted_afterAll_iff
    (history : List LedgerEvent)
    (target : Target) :
    (empty.afterAll history).hasLinted target = true ↔
      ∃ event ∈ history,
        event.IsRunOf fun ran => ran.CountsFor target ∧ ran.root.Same target.root := by
  refine afterAll_iff_exists_run (fun ledger => ledger.hasLinted target = true) ?_
    (fun ledger event => ledger.hasLinted_after_iff event target) history
  cases hlibrary : target.isLibrary <;>
    simp [hasLinted, ProjectRecord.hasLinted, hlibrary, ProjectRecord.empty, ProjectRecord.hasEntry]

theorem hasAnyRun_afterAll_iff
    (history : List LedgerEvent)
    (root : Path) :
    (empty.afterAll history).hasAnyRun root = true ↔
      ∃ event ∈ history, event.IsRunOf fun ran => ran.root.Same root :=
  afterAll_iff_exists_run (fun ledger => ledger.hasAnyRun root = true)
    Bool.false_ne_true (fun ledger event => ledger.hasAnyRun_after_iff event root) history

/-- The time of the last run is that of the last run of the root. -/
theorem lastRun_afterAll_iff
    (history : List LedgerEvent)
    (root : Path)
    (time : TimeOfDay) :
    (empty.afterAll history).lastRun root = some time ↔
      ∃ ran files,
        LastWhere (fun _ event => event.IsRunOf fun ran => ran.root.Same root) history
          (.enter ran files time) := by
  induction history using List.reverseRecOn with
  | nil => simp [lastRun, ProjectRecord.empty]
  | append_singleton history event ih =>
      rw [afterAll_snoc]
      by_cases hevent : event.IsRunOf fun ran => ran.root.Same root
      · have hlast : ∀ other, LastWhere
            (fun _ event => event.IsRunOf fun ran => ran.root.Same root) (history ++ [event])
              other ↔ other = event :=
          fun _ => lastWhere_snoc_of_fits hevent
        simp only [hlast]
        cases event with
        | clear project => exact hevent.elim
        | enter ran files latest =>
            have hroot : ran.root.Same root := hevent
            rw [after, lastRun_enter, if_pos hroot]
            simp [eq_comm]
      · have hlast : ∀ other, LastWhere
            (fun _ event => event.IsRunOf fun ran => ran.root.Same root) (history ++ [event])
              other ↔ LastWhere
                (fun _ event => event.IsRunOf fun ran => ran.root.Same root) history other :=
          fun _ => lastWhere_snoc_of_not_fits hevent
        simp only [hlast]
        rw [lastRun_after_of_not_isRunOf _ hevent, ih]

theorem lastRun_afterAll_eq_none_iff
    (history : List LedgerEvent)
    (root : Path) :
    (empty.afterAll history).lastRun root = none ↔
      ∀ event ∈ history, ¬ event.IsRunOf fun ran => ran.root.Same root := by
  have hsome := afterAll_iff_exists_run (fun ledger => (ledger.lastRun root).isSome = true)
    Bool.false_ne_true (fun ledger event => ledger.isSome_lastRun_after_iff event root) history
  rw [← Option.not_isSome_iff_eq_none, hsome]
  simp

/--
What a ledger answers after any history.  A library has been linted exactly if there was a run of a
library of its root; another target, if there was a run of one that is no library, of its root and
starting where it starts; and a file likewise.  A root has been linted exactly if there was a run of
it, and the time is that of the last one.  A clearing, and a run of another root, changes none of
these answers.
-/
theorem freshness_told_by_history
    (history : List LedgerEvent) :
    (∀ target : Target, target.isLibrary = true →
      ((empty.afterAll history).hasLinted target = true ↔
        ∃ event ∈ history,
          event.IsRunOf fun ran => ran.isLibrary = true ∧ ran.root.Same target.root)) ∧
    (∀ target : Target, target.isLibrary = false →
      ((empty.afterAll history).hasLinted target = true ↔
        ∃ event ∈ history,
          event.IsRunOf fun ran => ran.isLibrary = false ∧ ran.entry.Same target.entry ∧
            ran.root.Same target.root)) ∧
    (∀ root path : Path,
      (empty.afterAll history).hasLintedEntry root path = true ↔
        ∃ event ∈ history,
          event.IsRunOf fun ran => ran.isLibrary = false ∧ ran.entry.Same path ∧
            ran.root.Same root) ∧
    (∀ root : Path,
      (empty.afterAll history).hasAnyRun root = true ↔
        ∃ event ∈ history, event.IsRunOf fun ran => ran.root.Same root) ∧
    (∀ (root : Path) (time : TimeOfDay),
      (empty.afterAll history).lastRun root = some time ↔
        ∃ ran files,
          LastWhere (fun _ event => event.IsRunOf fun ran => ran.root.Same root) history
            (.enter ran files time)) ∧
    (∀ root : Path,
      (empty.afterAll history).lastRun root = none ↔
        ∀ event ∈ history, ¬ event.IsRunOf fun ran => ran.root.Same root) ∧
    (∀ (event : LedgerEvent) (root : Path), ¬ (event.IsRunOf fun ran => ran.root.Same root) →
      (∀ target : Target, target.root.Same root →
        (empty.afterAll (history ++ [event])).hasLinted target =
          (empty.afterAll history).hasLinted target) ∧
      (∀ path, (empty.afterAll (history ++ [event])).hasLintedEntry root path =
        (empty.afterAll history).hasLintedEntry root path) ∧
      (empty.afterAll (history ++ [event])).hasAnyRun root =
        (empty.afterAll history).hasAnyRun root ∧
      (empty.afterAll (history ++ [event])).lastRun root =
        (empty.afterAll history).lastRun root) := by
  refine ⟨?_, ?_, ?_, hasAnyRun_afterAll_iff history, lastRun_afterAll_iff history,
    lastRun_afterAll_eq_none_iff history, ?_⟩
  · intro target hlibrary
    rw [hasLinted_afterAll_iff]
    simp only [Target.countsFor_iff_of_isLibrary hlibrary]
  · intro target hother
    rw [hasLinted_afterAll_iff]
    simp only [Target.countsFor_iff_of_not_isLibrary hother, and_assoc]
  · intro root path
    have hbinary : (Target.mk "" .binary path root).isLibrary = false := rfl
    rw [hasLintedEntry_eq_hasLinted, hasLinted_afterAll_iff]
    simp only [Target.countsFor_iff_of_not_isLibrary hbinary, and_assoc]
  · intro event root hevent
    rw [afterAll_snoc]
    refine ⟨?_, ?_, ?_, lastRun_after_of_not_isRunOf _ hevent⟩
    · intro target htarget
      exact hasLinted_after_of_not_isRunOf _ hevent htarget
    · intro path
      rw [hasLintedEntry_eq_hasLinted, hasLintedEntry_eq_hasLinted]
      exact hasLinted_after_of_not_isRunOf _ hevent (Path.Same.refl root)
    · rw [Bool.eq_iff_iff, hasAnyRun_after_iff, or_iff_left hevent]

end LintLedger
end TargetLint
