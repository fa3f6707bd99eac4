import TargetLint.Session.Event
import TargetLint.Proofs.Catalog
import TargetLint.Proofs.LintLedger.Operation
import TargetLint.Proofs.ProjectSearch.Locate

/-!
# What handling an event can change

Once the project of an event is found, what the session does for it is a chain of few
kinds of steps: list targets, forget them, find the mode, enter a run, clear.
`Follows` says all that such a chain can change, and which operation on the ledger it
amounts to.  It holds of each step, it can be chained, and so it holds of every event.
-/

namespace TargetLint

namespace Session

/-- How targets are checked: what the session knows, or what the build tool's version calls for. -/
def modeWith (session : Session) (host : Host) (project : Project) : CheckMode :=
  session.mode.getD
    (BuildTool.modeOfReply (host (.capture (BuildCommand.version session.settings project))))

/-- The targets of a project: those that the session has listed, or those that the tool lists. -/
def targetsWith (session : Session) (host : Host) (project : Project) : List Target :=
  (session.catalogs.get? project.root).getD
    (Catalog.ofListing project
      (Metadata.ofReply session.settings.manifest project
        (host (.capture (BuildCommand.metadata session.settings.program project)))))

/-- The report on what the build tool prints when it checks a target. -/
def lintReport
    (session : Session)
    (host : Host)
    (project : Project)
    (target : Target) :
    Except StartError StreamReport :=
  let command := BuildCommand.lint session.settings (session.modeWith host project) target
  let reply : RunReply := host (.capture command)
  reply.map fun output => (readStream session.settings project output.stdout).value host

/-- The operation on the ledger that a lint amounts to, read off its result. -/
def lintEffect?
    (session : Session)
    (host : Host)
    (project : Project) :
    Except EventError (Option LintResult) → Option LedgerEvent
  | .ok (some (.linted run)) =>
      (session.lintReport host project run.target).toOption.map fun report =>
        .enter run.target report.diagnostics (host .timeOfDay)
  | _ => none

theorem value_findMode
    (session : Session)
    (host : Host)
    (project : Project) :
    (session.findMode project).value host =
      (session.modeWith host project, session.withMode (session.modeWith host project)) := by
  unfold findMode modeWith
  cases hmode : session.mode with
  | none => rfl
  | some mode =>
      have hsession : session.withMode mode = session := by
        rw [withMode, ← hmode]
      simp [hsession]

theorem value_catalogOf
    (session : Session)
    (host : Host)
    (project : Project) :
    (session.catalogOf project).value host =
      (session.targetsWith host project,
        match session.catalogs.get? project.root with
        | some _ => session
        | none =>
            { session with
              catalogs :=
                session.catalogs.set project.root (session.targetsWith host project) }) := by
  unfold catalogOf targetsWith
  cases session.catalogs.get? project.root <;> rfl

theorem value_checkTarget
    (session : Session)
    (host : Host)
    (project : Project)
    (target : Target) :
    (session.checkTarget project target).value host =
      match session.lintReport host project target with
      | .error error =>
          (.error (.notRun error), session.withMode (session.modeWith host project))
      | .ok report =>
          (.ok (.linted (.ofReport target report)),
            { session.withMode (session.modeWith host project) with
              ledger := session.ledger.enter target report.diagnostics (host .timeOfDay) }) := by
  unfold checkTarget lintReport
  rw [Consult.value_bind, value_findMode]
  generalize session.modeWith host project = mode
  have hreply :
      (Consult.question (.capture (BuildCommand.lint (session.withMode mode).settings mode
        target))).value host =
          host (.capture (BuildCommand.lint session.settings mode target)) :=
    rfl
  simp only [Consult.value_bind]
  rw [hreply]
  cases host (.capture (BuildCommand.lint session.settings mode target)) with
  | error error => rfl
  | ok output =>
      simp only [Consult.value_bind]
      rfl

/-- Every listed target has the root under which it is listed. -/
def CatalogsFit (session : Session) : Prop :=
  ∀ root targets, session.catalogs.get? root = some targets →
    ∀ target ∈ targets, target.root.Same root

/--
All that handling an event of a project can change: the targets listed for the project, the mode
if it was not known, and the ledger by the given operation, if any, on the project's record.
-/
structure Follows
    (host : Host)
    (project : Project)
    (session : Session)
    (effect : Option LedgerEvent)
    (next : Session) : Prop where
  settings : next.settings = session.settings
  memory : next.memory = session.memory
  catalogs : ∀ root, ¬ project.root.Same root →
    next.catalogs.get? root = session.catalogs.get? root
  fit : session.CatalogsFit → next.CatalogsFit
  mode : next.mode = session.mode ∨ next.mode = some (session.modeWith host project)
  ledger : next.ledger = effect.elim session.ledger session.ledger.after
  own : session.CatalogsFit → ∀ event, effect = some event → event.root.Same project.root

namespace Follows

variable {host : Host} {project : Project} {session next last : Session}
  {effect : Option LedgerEvent}

theorem refl
    (host : Host)
    (project : Project)
    (session : Session) :
    Follows host project session none session where
  settings := rfl
  memory := rfl
  catalogs := fun _ _ => rfl
  fit := id
  mode := Or.inl rfl
  ledger := rfl
  own := fun _ _ h => nomatch h

/-- The mode in which targets are checked stays what it would have been. -/
theorem modeWith_eq
    (h : Follows host project session effect next) :
    next.modeWith host project = session.modeWith host project := by
  rcases h.mode with hmode | hmode
  · rw [modeWith, modeWith, hmode, h.settings]
  · rw [modeWith, hmode, Option.getD_some]

theorem trans
    (h : Follows host project session none next)
    (hnext : Follows host project next effect last) :
    Follows host project session effect last where
  settings := hnext.settings.trans h.settings
  memory := hnext.memory.trans h.memory
  catalogs := fun root hroot => (hnext.catalogs root hroot).trans (h.catalogs root hroot)
  fit := fun hfit => hnext.fit (h.fit hfit)
  mode := by
    rcases hnext.mode with hmode | hmode
    · rw [hmode]
      exact h.mode
    · rw [hmode, h.modeWith_eq]
      exact Or.inr rfl
  ledger := by
    have hledger : next.ledger = session.ledger := h.ledger
    rw [hnext.ledger, hledger]
  own := fun hfit => hnext.own (h.fit hfit)

/-- What a lint amounts to is the same before and after such steps. -/
theorem lintEffect?_eq
    (h : Follows host project session none next)
    (result : Except EventError (Option LintResult)) :
    next.lintEffect? host project result = session.lintEffect? host project result := by
  unfold lintEffect? lintReport
  rw [h.modeWith_eq, h.settings]

end Follows

variable (session : Session) (host : Host) (project : Project)

/-- The targets with which a session works have the project's root. -/
theorem CatalogsFit.root_of_mem_targetsWith
    {session : Session}
    (hfit : session.CatalogsFit)
    {host : Host}
    {project : Project}
    {target : Target}
    (h : target ∈ session.targetsWith host project) :
    target.root.Same project.root := by
  unfold targetsWith at h
  cases hlisted : session.catalogs.get? project.root with
  | some targets =>
      rw [hlisted, Option.getD_some] at h
      exact hfit project.root targets hlisted target h
  | none =>
      rw [hlisted, Option.getD_none] at h
      rw [Catalog.root_of_mem_ofListing h]
      exact Path.Same.refl _

theorem follows_catalogOf :
    Follows host project session none ((session.catalogOf project).value host).2 := by
  rw [value_catalogOf]
  dsimp only
  cases hlisted : session.catalogs.get? project.root with
  | some targets => exact Follows.refl host project session
  | none =>
      refine { Follows.refl host project session with catalogs := ?_, fit := ?_ }
      · intro root hroot
        rw [PathTable.get?_set, if_neg hroot]
      · intro hfit root targets hget
        rw [PathTable.get?_set] at hget
        by_cases hroot : project.root.Same root
        · rw [if_pos hroot] at hget
          obtain rfl := Option.some.inj hget
          intro target htarget
          exact (hfit.root_of_mem_targetsWith htarget).trans hroot
        · rw [if_neg hroot] at hget
          exact hfit root targets hget

theorem follows_forgetCatalog :
    Follows host project session none (session.forgetCatalog project) := by
  refine { Follows.refl host project session with catalogs := ?_, fit := ?_ }
  · intro root hroot
    rw [forgetCatalog, PathTable.get?_erase, if_neg hroot]
  · intro hfit root targets hget
    rw [forgetCatalog, PathTable.get?_erase] at hget
    by_cases hroot : project.root.Same root
    · rw [if_pos hroot] at hget
      cases hget
    · rw [if_neg hroot] at hget
      exact hfit root targets hget

theorem follows_clear :
    Follows host project session (some (.clear project))
      { session with ledger := session.ledger.clear project } :=
  { Follows.refl host project session with
    ledger := rfl
    own := by
      rintro - event hevent
      obtain rfl := Option.some.inj hevent
      exact Path.Same.refl _ }

/-- Checking a target enters its run if the build tool could be run, and nothing else. -/
theorem follows_checkTarget
    {target : Target}
    (hown : session.CatalogsFit → target.root.Same project.root) :
    Follows host project session
      (session.lintEffect? host project
        (((session.checkTarget project target).value host).1.map some))
      ((session.checkTarget project target).value host).2 := by
  rw [value_checkTarget]
  have hmode : Follows host project session none
      (session.withMode (session.modeWith host project)) :=
    { Follows.refl host project session with mode := Or.inr rfl }
  cases hreport : session.lintReport host project target with
  | error error => exact hmode
  | ok report =>
      have hentry : session.lintEffect? host project
          (.ok (some (.linted (.ofReport target report)))) =
            some (.enter target report.diagnostics (host .timeOfDay)) := by
        simp [lintEffect?, LintRun.ofReport, hreport, Except.toOption]
      refine { hmode with ledger := ?_, own := ?_ }
      · change _ = Option.elim (session.lintEffect? host project
          (.ok (some (.linted (.ofReport target report))))) _ _
        rw [hentry]
        rfl
      · intro hfit event hevent
        have hsome : some event = some (LedgerEvent.enter target report.diagnostics _) :=
          hevent.symm.trans hentry
        rw [Option.some.inj hsome]
        exact hown hfit

/-- The result of a lint and the session after it follow, with what the result amounts to. -/
def FollowsLint (outcome : Except EventError (Option LintResult) × Session) : Prop :=
  Follows host project session (session.lintEffect? host project outcome.1) outcome.2

theorem catalogs_catalogOf :
    ((session.catalogOf project).value host).2.catalogs.get? project.root =
      some ((session.catalogOf project).value host).1 := by
  rw [value_catalogOf]
  dsimp only
  cases hlisted : session.catalogs.get? project.root with
  | some targets => simp [targetsWith, hlisted]
  | none => simp [PathTable.get?_set]

/-- A lint of a listed target follows from the session before the targets were listed. -/
theorem followsLint_checkTarget_of_mem
    {target : Target}
    (h : target ∈ ((session.catalogOf project).value host).1) :
    FollowsLint session host project
      (calledFor ((((session.catalogOf project).value host).2.checkTarget project target).value
        host)) := by
  have hlisted := follows_catalogOf session host project
  have hown : ((session.catalogOf project).value host).2.CatalogsFit →
      target.root.Same project.root :=
    fun hfit => hfit _ _ (catalogs_catalogOf session host project) target h
  have hcheck := follows_checkTarget ((session.catalogOf project).value host).2 host project hown
  rw [hlisted.lintEffect?_eq] at hcheck
  exact hlisted.trans hcheck

theorem followsLint_checkFile (path : Path) :
    FollowsLint session host project
      (calledFor ((session.checkFile project path).value host)) := by
  unfold checkFile
  rw [Consult.value_bind]
  cases hchoice : Choice.forFile? path ((session.catalogOf project).value host).1 .lint with
  | none =>
      simp only [hchoice]
      exact follows_catalogOf session host project
  | some choice =>
      simp only [hchoice]
      exact followsLint_checkTarget_of_mem session host project (Choice.mem_of_forFile? hchoice)

theorem followsLint_checkOwnTarget (path : Path) :
    FollowsLint session host project ((session.checkOwnTarget project path).value host) := by
  unfold checkOwnTarget
  rw [Consult.value_bind]
  cases hown : ownTarget? ((session.catalogOf project).value host).1 path with
  | none =>
      simp only [hown]
      exact follows_catalogOf session host project
  | some target =>
      simp only [hown]
      split
      · exact follows_catalogOf session host project
      · rw [Consult.value_bind]
        exact followsLint_checkTarget_of_mem session host project
          (List.mem_of_find?_eq_some hown)

theorem follows_hasResults :
    Follows host project session none ((session.hasResults project).value host).2 := by
  unfold hasResults
  rw [Consult.value_bind]
  cases hchoice :
      Choice.forFile? project.root ((session.catalogOf project).value host).1 .lint with
  | none =>
      simp only [hchoice]
      exact follows_catalogOf session host project
  | some choice =>
      simp only [hchoice]
      exact follows_catalogOf session host project

variable {session host project} in
theorem FollowsLint.of_follows
    {next : Session}
    (h : Follows host project session none next)
    {outcome : Except EventError (Option LintResult) × Session}
    (houtcome : FollowsLint next host project outcome) :
    FollowsLint session host project outcome := by
  unfold FollowsLint at houtcome ⊢
  rw [h.lintEffect?_eq] at houtcome
  exact h.trans houtcome

end Session
end TargetLint
