import TargetLint.Proofs.Session.Journal

/-!
# The conduct of a session

Handling an event comes down to few steps, whatever the event: a saved manifest makes
the session forget the targets of its project, the targets are listed unless they are
known, and at most one of them is checked.  Which one depends on the targets and on
what has been linted.  Everything else, the answer, the commands that are run and the
session afterwards, follows from that choice.
-/

namespace TargetLint

namespace Consult

variable {α β : Type}

/-- The commands that a computation runs, in their order. -/
def commands (host : Host) (computation : Consult α) : List Command :=
  (computation.asked host).filterMap Question.command?

@[simp] theorem commands_pure
    (host : Host)
    (result : α) :
    (pure result : Consult α).commands host = [] :=
  rfl

@[simp] theorem commands_bind
    (host : Host)
    (computation : Consult α)
    (next : α → Consult β) :
    (computation >>= next).commands host =
      computation.commands host ++ (next (computation.value host)).commands host := by
  rw [commands, asked_bind, List.filterMap_append]
  rfl

@[simp] theorem commands_capture
    (host : Host)
    (command : Command) :
    (question (.capture command)).commands host = [command] :=
  rfl

/-- What runs no command at its end adds none. -/
theorem commands_bind_of_forall_eq_nil
    {host : Host}
    {next : α → Consult β}
    (h : ∀ result, (next result).commands host = [])
    (computation : Consult α) :
    (computation >>= next).commands host = computation.commands host := by
  rw [commands_bind, h, List.append_nil]

theorem commands_filter
    {host : Host}
    {test : α → Consult Bool}
    (h : ∀ item, (test item).commands host = [])
    (items : List α) :
    (filter test items).commands host = [] := by
  induction items with
  | nil => rfl
  | cons item rest ih =>
      rw [filter, commands_bind, h, commands_bind, ih]
      rfl

theorem commands_first?
    {host : Host}
    {test : α → Consult Bool}
    (h : ∀ item, (test item).commands host = [])
    (items : List α) :
    (first? test items).commands host = [] := by
  induction items with
  | nil => rfl
  | cons item rest ih =>
      rw [first?, commands_bind, h, List.nil_append]
      split
      · rfl
      · exact ih

end Consult

namespace ProjectSearch

/-- A search looks at files only. -/
theorem commands_locate
    (host : Host)
    (manifest : String)
    (memory : SearchMemory)
    (path : Path) :
    (locate manifest memory path).commands host = [] := by
  unfold locate
  split
  · rfl
  · split
    · rfl
    · have hfirst : ∀ directories, (Consult.first? (holdsManifest manifest) directories).commands
          host = [] := Consult.commands_first? fun _ => rfl
      rw [Consult.commands_bind, ascend, Consult.commands_bind, Consult.commands_bind, hfirst]
      rfl

end ProjectSearch

/-- A lint was run for the answer, with results or without success. -/
def SessionAnswer.ran : SessionAnswer → Bool
  | .lint (.ok (some (.linted _))) => true
  | .lint (.error (.notRun _)) => true
  | _ => false

/-- The event is answered with the help of the targets of its project. -/
def SessionEvent.needsTargets : SessionEvent → Bool
  | project _ => false
  | clear _ => false
  | _ => true

namespace LintLedger

/-- The main target among a project's targets has results, or any target where there is none. -/
def hasMainResults (ledger : LintLedger) (project : Project) (targets : List Target) : Bool :=
  match Choice.forFile? project.root targets .lint with
  | some choice => ledger.hasLinted choice.target
  | none => ledger.hasAnyRun project.root

/-- The target that is checked for an event, given the targets of its project. -/
def due?
    (ledger : LintLedger)
    (project : Project)
    (targets : List Target) :
    SessionEvent → Option Target
  | .lint path => (Choice.forFile? path targets .lint).map Choice.target
  | .save path => (Choice.forFile? path targets .lint).map Choice.target
  | .activate path =>
      if ledger.hasMainResults project targets then
        (Session.ownTarget? targets path).filter fun target => !ledger.hasLinted target
      else
        (Choice.forFile? path targets .lint).map Choice.target
  | _ => none

end LintLedger

namespace Session

/-- The session when it turns to the targets of the event's project. -/
def prepared (session : Session) (project : Project) : SessionEvent → Session
  | .save path => if session.isManifest path then session.forgetCatalog project else session
  | _ => session

/-- The session once the targets of a project are listed. -/
def listed (session : Session) (host : Host) (project : Project) : Session :=
  ((session.catalogOf project).value host).2

/-- The targets with which an event of a project is answered. -/
def targetsFor
    (session : Session)
    (host : Host)
    (project : Project)
    (event : SessionEvent) :
    List Target :=
  (session.prepared project event).targetsWith host project

/-- The answer to an event for which no target is checked. -/
def quietAnswer
    (session : Session)
    (project : Project)
    (targets : List Target) :
    SessionEvent → SessionAnswer
  | .lint _ => .lint (.ok (some .nothingToDo))
  | .save _ => .lint (.ok (some .nothingToDo))
  | .activate _ =>
      .lint (.ok (if session.ledger.hasMainResults project targets then none else
        some .nothingToDo))
  | .run path =>
      .command ((Choice.forFile? path targets .run).elim (.error (.noTarget path)) fun choice =>
        .ok (BuildCommand.run session.settings choice.target))
  | .targets _ => .targets (.ok targets)
  | .project _ => .project (.ok project)
  | .clear _ => .cleared (.ok (session.ledger.clearCount project))

/-- The session after an event for which no target is checked. -/
def quietAfter (session : Session) (host : Host) (project : Project) : SessionEvent → Session
  | .project _ => session
  | .clear _ => { session with ledger := session.ledger.clear project }
  | _ => session.listed host project

/-- The command that lists targets, unless they are known. -/
def listing (session : Session) (project : Project) : List Command :=
  if (session.catalogs.get? project.root).isSome then
    []
  else
    [BuildCommand.metadata session.settings.program project]

/-- The command that checks a target, after the question for the version if no mode is known. -/
def checking
    (session : Session)
    (host : Host)
    (project : Project)
    (target : Target) :
    List Command :=
  (if session.mode.isSome then [] else [BuildCommand.version session.settings project]) ++
    [BuildCommand.lint session.settings (session.modeWith host project) target]

variable (session : Session) (host : Host) (project : Project)

theorem value_catalogOf_eq :
    (session.catalogOf project).value host =
      (session.targetsWith host project, session.listed host project) := by
  rw [listed, value_catalogOf]

theorem get?_listed (root : Path) :
    (session.listed host project).catalogs.get? root =
      if project.root.Same root then
        some (session.targetsWith host project)
      else
        session.catalogs.get? root := by
  rw [listed, value_catalogOf]
  dsimp only
  cases hknown : session.catalogs.get? project.root with
  | some targets =>
      by_cases hroot : project.root.Same root
      · rw [if_pos hroot, targetsWith, hknown, ← session.catalogs.get?_congr hroot, hknown]
        rfl
      · rw [if_neg hroot]
  | none => rw [PathTable.get?_set]

theorem listed_eq_with_catalogs :
    session.listed host project =
      { session with catalogs := (session.listed host project).catalogs } := by
  rw [listed, value_catalogOf]
  cases session.catalogs.get? project.root <;> rfl

@[simp] theorem settings_listed : (session.listed host project).settings = session.settings := by
  rw [listed_eq_with_catalogs]

@[simp] theorem mode_listed : (session.listed host project).mode = session.mode := by
  rw [listed_eq_with_catalogs]

@[simp] theorem ledger_listed : (session.listed host project).ledger = session.ledger := by
  rw [listed_eq_with_catalogs]

/-- Once listed, the targets are at hand. -/
theorem catalogOf_listed :
    (session.listed host project).catalogOf project =
      pure (session.targetsWith host project, session.listed host project) := by
  rw [catalogOf, get?_listed, if_pos (Path.Same.refl project.root)]

theorem commands_catalogOf :
    (session.catalogOf project).commands host = session.listing project := by
  rw [catalogOf, listing]
  cases session.catalogs.get? project.root <;> rfl

/-- Targets are listed exactly while none are at hand. -/
theorem listing_cases :
    (∃ known, session.catalogs.get? project.root = some known ∧ session.listing project = []) ∨
      session.catalogs.get? project.root = none ∧
        session.listing project = [BuildCommand.metadata session.settings.program project] := by
  rw [listing]
  cases session.catalogs.get? project.root with
  | some known => exact Or.inl ⟨known, rfl, rfl⟩
  | none => exact Or.inr ⟨rfl, rfl⟩

theorem commands_checkTarget (target : Target) :
    (session.checkTarget project target).commands host = session.checking host project target := by
  have hread : ∀ settings text, (readStream settings project text).commands host = [] := by
    intro settings text
    rw [readStream, Consult.commands_bind, Consult.commands_filter fun _ => rfl]
    rfl
  have hmode : (session.findMode project).commands host =
      if session.mode.isSome then [] else [BuildCommand.version session.settings project] := by
    rw [findMode]
    cases session.mode <;> rfl
  rw [checkTarget, Consult.commands_bind, Consult.commands_bind, hmode, value_findMode, checking]
  dsimp only [withMode]
  rw [Consult.commands_capture, Consult.value_question]
  congr 1
  cases host (.capture (BuildCommand.lint session.settings (session.modeWith host project)
    target)) with
  | error error => rfl
  | ok output =>
      dsimp only
      rw [Consult.commands_bind, hread]
      rfl

theorem checking_listed (target : Target) :
    (session.listed host project).checking host project target =
      session.checking host project target := by
  rw [checking, checking, modeWith, modeWith, mode_listed, settings_listed]

theorem value_hasResults :
    (session.hasResults project).value host =
      (session.ledger.hasMainResults project (session.targetsWith host project),
        session.listed host project) := by
  rw [hasResults, Consult.value_bind, value_catalogOf_eq, LintLedger.hasMainResults]
  dsimp only
  rw [ledger_listed]
  cases Choice.forFile? project.root (session.targetsWith host project) .lint <;> rfl

theorem commands_hasResults :
    (session.hasResults project).commands host = session.listing project := by
  rw [hasResults, Consult.commands_bind, commands_catalogOf, value_catalogOf_eq]
  dsimp only
  cases Choice.forFile? project.root (session.targetsWith host project) .lint <;>
    exact List.append_nil _

theorem value_checkFile (path : Path) :
    (session.checkFile project path).value host =
      match Choice.forFile? path (session.targetsWith host project) .lint with
      | some choice => ((session.listed host project).checkTarget project choice.target).value host
      | none => (.ok .nothingToDo, session.listed host project) := by
  rw [checkFile, Consult.value_bind, value_catalogOf_eq]
  dsimp only
  cases Choice.forFile? path (session.targetsWith host project) .lint <;> rfl

theorem commands_checkFile (path : Path) :
    (session.checkFile project path).commands host =
      session.listing project ++
        ((Choice.forFile? path (session.targetsWith host project) .lint).elim [] fun choice =>
          session.checking host project choice.target) := by
  rw [checkFile, Consult.commands_bind, commands_catalogOf, value_catalogOf_eq]
  dsimp only
  cases Choice.forFile? path (session.targetsWith host project) .lint with
  | none => rfl
  | some choice =>
      dsimp only [Option.elim_some]
      rw [commands_checkTarget, checking_listed]

theorem targetsWith_listed :
    (session.listed host project).targetsWith host project = session.targetsWith host project := by
  rw [targetsWith, get?_listed, if_pos (Path.Same.refl project.root), Option.getD_some]

theorem listed_listed :
    (session.listed host project).listed host project = session.listed host project := by
  rw [listed, catalogOf_listed]
  rfl

theorem listing_listed : (session.listed host project).listing project = [] := by
  rw [listing, get?_listed, if_pos (Path.Same.refl project.root)]
  rfl

theorem value_checkOwnTarget (path : Path) :
    ((session.listed host project).checkOwnTarget project path).value host =
      match (ownTarget? (session.targetsWith host project) path).filter fun target =>
        !session.ledger.hasLinted target with
      | some target =>
          calledFor (((session.listed host project).checkTarget project target).value host)
      | none => (.ok none, session.listed host project) := by
  rw [checkOwnTarget, catalogOf_listed, Consult.value_bind, Consult.value_pure]
  dsimp only
  cases ownTarget? (session.targetsWith host project) path with
  | none => rfl
  | some target =>
      dsimp only
      rw [ledger_listed, Option.filter_some]
      cases session.ledger.hasLinted target with
      | true => rfl
      | false => exact Consult.value_bind host _ _

theorem commands_checkOwnTarget (path : Path) :
    ((session.listed host project).checkOwnTarget project path).commands host =
      ((ownTarget? (session.targetsWith host project) path).filter fun target =>
        !session.ledger.hasLinted target).elim [] (session.checking host project) := by
  rw [checkOwnTarget, catalogOf_listed, Consult.commands_bind, Consult.value_pure]
  dsimp only
  cases ownTarget? (session.targetsWith host project) path with
  | none => rfl
  | some target =>
      dsimp only
      rw [ledger_listed, Option.filter_some]
      cases session.ledger.hasLinted target with
      | true => rfl
      | false =>
          have hcheck := (session.listed host project).commands_checkTarget host project target
          rw [checking_listed] at hcheck
          simp [hcheck]

/-- A session turns to the targets of a project as it is, unless the project's manifest is saved. -/
theorem prepared_cases (event : SessionEvent) :
    session.prepared project event = session ∨
      ∃ path, event = .save path ∧ session.isManifest path = true ∧
        session.prepared project event = session.forgetCatalog project := by
  cases event with
  | save path =>
      rw [prepared]
      split
      · rename_i hmanifest
        exact Or.inr ⟨path, rfl, hmanifest, rfl⟩
      · exact Or.inl rfl
  | _ => exact Or.inl rfl

@[simp] theorem ledger_prepared (event : SessionEvent) :
    (session.prepared project event).ledger = session.ledger := by
  rcases session.prepared_cases project event with h | ⟨-, -, -, h⟩
  · rw [h]
  · rw [h]
    rfl

@[simp] theorem settings_prepared (event : SessionEvent) :
    (session.prepared project event).settings = session.settings := by
  rcases session.prepared_cases project event with h | ⟨-, -, -, h⟩
  · rw [h]
  · rw [h]
    rfl

@[simp] theorem mode_prepared (event : SessionEvent) :
    (session.prepared project event).mode = session.mode := by
  rcases session.prepared_cases project event with h | ⟨-, -, -, h⟩
  · rw [h]
  · rw [h]
    rfl

/-- A project's event is handled by checking the target that is due, or quietly if none is. -/
theorem handle_eq (event : SessionEvent) :
    session.handle host project event =
      match session.ledger.due? project (session.targetsFor host project event) event with
      | some target =>
          lintAnswer (calledFor ((((session.prepared project event).listed host
            project).checkTarget project target).value host))
      | none =>
          (session.quietAnswer project (session.targetsFor host project event) event,
            (session.prepared project event).quietAfter host project event) := by
  cases event with
  | lint path =>
      have htargets : session.targetsFor host project (.lint path) =
          session.targetsWith host project := rfl
      rw [htargets, handle, value_checkFile, LintLedger.due?]
      cases Choice.forFile? path (session.targetsWith host project) .lint <;> rfl
  | save path =>
      have hhandle : session.handle host project (.save path) = lintAnswer (calledFor
          (((session.prepared project (.save path)).checkFile project path).value host)) := rfl
      rw [hhandle, value_checkFile, ← targetsFor, LintLedger.due?]
      cases Choice.forFile? path (session.targetsFor host project (.save path)) .lint <;> rfl
  | activate path =>
      have htargets : session.targetsFor host project (.activate path) =
          session.targetsWith host project := rfl
      rw [htargets, handle, value_hasResults, LintLedger.due?, quietAnswer]
      by_cases hresults :
          session.ledger.hasMainResults project (session.targetsWith host project) = true
      · simp only [if_pos hresults]
        rw [value_checkOwnTarget]
        split <;> rfl
      · simp only [if_neg hresults]
        rw [value_checkFile, targetsWith_listed, listed_listed]
        cases Choice.forFile? path (session.targetsWith host project) .lint <;> rfl
  | run path =>
      rw [handle, value_catalogOf_eq, settings_listed]
      rfl
  | targets path =>
      rw [handle, value_catalogOf_eq]
      rfl
  | project path => rfl
  | clear path => rfl

theorem value_checkTarget_catalogs (target : Target) :
    (((session.checkTarget project target).value host).2).catalogs = session.catalogs := by
  rw [value_checkTarget]
  cases session.lintReport host project target <;> rfl

theorem value_checkTarget_mode (target : Target) :
    (((session.checkTarget project target).value host).2).mode =
      some (session.modeWith host project) := by
  rw [value_checkTarget]
  cases session.lintReport host project target <;> rfl

theorem ran_checkTarget (target : Target) :
    (lintAnswer (calledFor ((session.checkTarget project target).value host))).1.ran = true := by
  rw [value_checkTarget]
  cases session.lintReport host project target <;> rfl

theorem ran_quietAnswer
    (targets : List Target)
    (event : SessionEvent) :
    (session.quietAnswer project targets event).ran = false := by
  cases event with
  | activate path =>
      rw [quietAnswer]
      cases session.ledger.hasMainResults project targets <;> rfl
  | _ => rfl

theorem mode_quietAfter (event : SessionEvent) :
    (session.quietAfter host project event).mode = session.mode := by
  cases event with
  | project path => rfl
  | clear path => rfl
  | _ path => exact session.mode_listed host project

/-- A lint is run exactly if a target is due. -/
theorem ran_handle (event : SessionEvent) :
    (session.handle host project event).1.ran =
      (session.ledger.due? project (session.targetsFor host project event) event).isSome := by
  rw [handle_eq]
  cases session.ledger.due? project (session.targetsFor host project event) event with
  | none => exact ran_quietAnswer session project _ event
  | some target => exact ran_checkTarget _ host project target

/-- Neither listing targets nor forgetting them changes what a check reports. -/
theorem lintReport_listed_prepared
    (event : SessionEvent)
    (target : Target) :
    ((session.prepared project event).listed host project).lintReport host project target =
      session.lintReport host project target := by
  rw [lintReport, lintReport, modeWith, modeWith, mode_listed, settings_listed, mode_prepared,
    settings_prepared]

section

variable {event : SessionEvent} {target : Target}
  (hdue : session.ledger.due? project (session.targetsFor host project event) event = some target)

include hdue

/-- The run of a target that is due is entered if the build tool can be run. -/
theorem handle_of_due_of_report
    {report : StreamReport}
    (hreport : session.lintReport host project target = .ok report) :
    (session.handle host project event).1 = .lint (.ok (some (.linted (.ofReport target report)))) ∧
      (session.handle host project event).2.ledger =
        session.ledger.enter target report.diagnostics (host .timeOfDay) := by
  have hledger :
      ((session.prepared project event).listed host project).ledger = session.ledger := by
    rw [ledger_listed, ledger_prepared]
  rw [handle_eq, hdue]
  dsimp only
  rw [value_checkTarget, lintReport_listed_prepared, hreport, hledger]
  exact ⟨rfl, rfl⟩

/-- Nothing is entered if it cannot be run. -/
theorem handle_of_due_of_error
    {error : StartError}
    (herror : session.lintReport host project target = .error error) :
    (session.handle host project event).1 = .lint (.error (.notRun error)) ∧
      (session.handle host project event).2.ledger = session.ledger := by
  rw [handle_eq, hdue]
  dsimp only
  rw [value_checkTarget, lintReport_listed_prepared, herror]
  refine ⟨rfl, ?_⟩
  exact (ledger_listed _ host project).trans (session.ledger_prepared project event)

end

/-- The mode is known once a target has been checked. -/
theorem mode_handle (event : SessionEvent) :
    (session.handle host project event).2.mode =
      if (session.ledger.due? project (session.targetsFor host project event) event).isSome then
        some (session.modeWith host project)
      else
        session.mode := by
  rw [handle_eq]
  cases session.ledger.due? project (session.targetsFor host project event) event with
  | none =>
      refine (mode_quietAfter (session.prepared project event) host project event).trans ?_
      exact session.mode_prepared project event
  | some target =>
      refine (value_checkTarget_mode _ host project target).trans ?_
      rw [modeWith, mode_listed, settings_listed, mode_prepared, settings_prepared]
      rfl

/-- The targets with which an event was answered are listed from then on. -/
theorem get?_handle
    {event : SessionEvent}
    (hneeds : event.needsTargets = true)
    (root : Path) :
    (session.handle host project event).2.catalogs.get? root =
      if project.root.Same root then
        some (session.targetsFor host project event)
      else
        session.catalogs.get? root := by
  have hprepared : ¬ project.root.Same root →
      (session.prepared project event).catalogs.get? root = session.catalogs.get? root := by
    intro hroot
    rcases session.prepared_cases project event with h | ⟨-, -, -, h⟩
    · rw [h]
    · rw [h, forgetCatalog, PathTable.get?_erase, if_neg hroot]
  have hlisted : (session.handle host project event).2.catalogs =
      ((session.prepared project event).listed host project).catalogs := by
    rw [handle_eq]
    cases session.ledger.due? project (session.targetsFor host project event) event with
    | none =>
        cases event with
        | project path => cases hneeds
        | clear path => cases hneeds
        | _ path => rfl
    | some target => exact value_checkTarget_catalogs _ host project target
  rw [hlisted, get?_listed, ← targetsFor]
  by_cases hroot : project.root.Same root
  · rw [if_pos hroot, if_pos hroot]
  · rw [if_neg hroot, if_neg hroot, hprepared hroot]

variable {session host project} {event : SessionEvent}

theorem commands_findProject
    (session : Session)
    (host : Host)
    (path : Path) :
    (session.findProject path).commands host = [] := by
  rw [findProject, Consult.commands_bind, ProjectSearch.commands_locate]
  rfl

theorem commands_withProject
    {α : Type}
    {path : Path}
    {found : Session}
    (next : Project → Session → Consult (Except EventError α × Session))
    (h : (session.findProject path).value host = (.ok project, found)) :
    (session.withProject path next).commands host = (next project found).commands host := by
  rw [withProject, Consult.commands_bind, h, commands_findProject]
  rfl

theorem commands_withProject_of_error
    {α : Type}
    {path : Path}
    {found : Session}
    {error : EventError}
    (next : Project → Session → Consult (Except EventError α × Session))
    (h : (session.findProject path).value host = (.error error, found)) :
    (session.withProject path next).commands host = [] := by
  rw [withProject, Consult.commands_bind, h, commands_findProject]
  rfl

/-- The commands of an event whose project is found. -/
theorem commands_step
    (hlook : ¬ session.Ignores event)
    (hfound : (session.found ⟨host, event⟩).1 = .ok project) :
    (session.step event).commands host =
      (if event.needsTargets then (session.prepared project event).listing project else []) ++
        (session.ledger.due? project (session.targetsFor host project event) event).elim []
          (session.checking host project) := by
  obtain ⟨memory, hvalue⟩ : ∃ memory, (session.findProject event.path).value host =
      (.ok project, { session with memory := memory }) :=
    ⟨_, Prod.ext hfound (session.found_snd ⟨host, event⟩)⟩
  cases event with
  | lint path =>
      simp only [SessionEvent.path] at hvalue
      rw [step, Consult.commands_bind_of_forall_eq_nil fun _ => rfl, lint,
        commands_withProject _ hvalue, commands_checkFile, LintLedger.due?, Option.elim_map]
      rfl
  | save path =>
      simp only [SessionEvent.path] at hvalue
      have hlint : (session.settings.lintOnSave &&
          (session.isManifest path || isSource path)) = true :=
        Bool.eq_true_of_not_eq_false hlook
      rw [step, Consult.commands_bind_of_forall_eq_nil fun _ => rfl, save, if_pos hlint,
        commands_withProject _ hvalue, Consult.commands_bind_of_forall_eq_nil fun _ => rfl,
        commands_checkFile, targetsFor, prepared, LintLedger.due?, Option.elim_map]
      cases session.isManifest path <;> rfl
  | activate path =>
      simp only [SessionEvent.path] at hvalue
      rw [step, Consult.commands_bind_of_forall_eq_nil fun _ => rfl, activate,
        Consult.commands_bind, commands_findProject, hvalue]
      dsimp only
      rw [Consult.commands_bind, commands_hasResults, value_hasResults, LintLedger.due?,
        List.nil_append]
      have htargets : { session with memory := memory }.targetsWith host project =
          session.targetsFor host project (.activate path) := rfl
      dsimp only
      rw [htargets]
      congr 1
      split
      · rw [commands_checkOwnTarget]
        rfl
      · rw [Consult.commands_bind_of_forall_eq_nil fun _ => rfl, commands_checkFile,
          listing_listed, targetsWith_listed, Option.elim_map, List.nil_append]
        simp only [checking_listed]
        rfl
  | run path =>
      simp only [SessionEvent.path] at hvalue
      rw [step, Consult.commands_bind_of_forall_eq_nil fun _ => rfl, command,
        commands_withProject _ hvalue, Consult.commands_bind_of_forall_eq_nil, commands_catalogOf]
      · exact (List.append_nil _).symm
      · rintro ⟨targets, next⟩
        dsimp only
        cases Choice.forFile? path targets .run <;> rfl
  | targets path =>
      simp only [SessionEvent.path] at hvalue
      rw [step, Consult.commands_bind_of_forall_eq_nil fun _ => rfl, targets,
        commands_withProject _ hvalue, Consult.commands_bind_of_forall_eq_nil fun _ => rfl,
        commands_catalogOf]
      exact (List.append_nil _).symm
  | project path =>
      rw [step, Consult.commands_bind_of_forall_eq_nil fun _ => rfl, commands_findProject]
      rfl
  | clear path =>
      simp only [SessionEvent.path] at hvalue
      rw [step, Consult.commands_bind_of_forall_eq_nil fun _ => rfl, clear,
        commands_withProject _ hvalue]
      rfl

/-- An event outside every project runs no command. -/
theorem commands_step_of_error
    {error : EventError}
    (hlook : ¬ session.Ignores event)
    (hfound : (session.found ⟨host, event⟩).1 = .error error) :
    (session.step event).commands host = [] := by
  have hvalue : (session.findProject event.path).value host =
      (.error error, (session.found ⟨host, event⟩).2) :=
    Prod.ext hfound rfl
  cases event with
  | save path =>
      simp only [SessionEvent.path] at hvalue
      have hlint : (session.settings.lintOnSave &&
          (session.isManifest path || isSource path)) = true :=
        Bool.eq_true_of_not_eq_false hlook
      rw [step, Consult.commands_bind_of_forall_eq_nil fun _ => rfl, save, if_pos hlint,
        commands_withProject_of_error _ hvalue]
  | activate path =>
      simp only [SessionEvent.path] at hvalue
      rw [step, Consult.commands_bind_of_forall_eq_nil fun _ => rfl, activate,
        Consult.commands_bind, commands_findProject, hvalue]
      rfl
  | project path =>
      rw [step, Consult.commands_bind_of_forall_eq_nil fun _ => rfl, commands_findProject]
  | _ path =>
      simp only [SessionEvent.path] at hvalue
      rw [step, Consult.commands_bind_of_forall_eq_nil fun _ => rfl]
      exact commands_withProject_of_error _ hvalue

end Session
end TargetLint
