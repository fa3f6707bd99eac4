import TargetLint.Proofs.Session.Handling

/-!
# The journal of a session

An event changes the ledger by at most one operation: the entry of a lint run or the
clearing of a project.  The operation can be read off the event's answer.  Along a
run these operations form a journal, and the ledger of a session is what its journal
makes of the ledger at the start.
-/

namespace TargetLint

/-- The path that an event is about. -/
def SessionEvent.path : SessionEvent → Path
  | lint path => path
  | save path => path
  | activate path => path
  | run path => path
  | targets path => path
  | project path => path
  | clear path => path

namespace Session

/-- What the search for the project of an event leads to. -/
def found (session : Session) (occurrence : Occurrence) : Except EventError Project × Session :=
  (session.findProject occurrence.event.path).value occurrence.host

/-- The operation on the ledger that an event of a project amounts to, read off its answer. -/
def effect?
    (session : Session)
    (host : Host)
    (project : Project) :
    SessionAnswer → Option LedgerEvent
  | .lint result => session.lintEffect? host project result
  | .cleared (.ok _) => some (.clear project)
  | _ => none

/-- The operation on the ledger that an event amounts to; none where it has no project. -/
def recorded? (session : Session) (occurrence : Occurrence) : Option LedgerEvent :=
  match (session.found occurrence).1 with
  | .ok project => session.effect? occurrence.host project (session.answer occurrence)
  | .error _ => none

/-- The operations on the ledger along a run. -/
def journal : Session → List Occurrence → List LedgerEvent
  | _, [] => []
  | session, occurrence :: later =>
      (session.recorded? occurrence).toList ++ (session.after occurrence).journal later

theorem value_findProject
    (session : Session)
    (host : Host)
    (path : Path) :
    (session.findProject path).value host =
      let located := (ProjectSearch.locate session.settings.manifest session.memory path).value host
      (located.1.mapError .noProject, { session with memory := located.2 }) := by
  rw [findProject, Consult.value_bind]
  rfl

theorem found_snd
    (session : Session)
    (occurrence : Occurrence) :
    (session.found occurrence).2 =
      { session with
        memory := ((ProjectSearch.locate session.settings.manifest session.memory
          occurrence.event.path).value occurrence.host).2 } := by
  rw [found, value_findProject]

@[simp] theorem settings_found
    (session : Session)
    (occurrence : Occurrence) :
    (session.found occurrence).2.settings = session.settings := by
  rw [found_snd]

@[simp] theorem ledger_found
    (session : Session)
    (occurrence : Occurrence) :
    (session.found occurrence).2.ledger = session.ledger := by
  rw [found_snd]

theorem CatalogsFit.found
    {session : Session}
    (h : session.CatalogsFit)
    (occurrence : Occurrence) :
    (session.found occurrence).2.CatalogsFit := by
  rw [found_snd]
  exact h

theorem value_withProject
    {α : Type}
    (session : Session)
    (host : Host)
    (path : Path)
    (next : Project → Session → Consult (Except EventError α × Session)) :
    (session.withProject path next).value host =
      match (session.findProject path).value host with
      | (.error error, found) => (.error error, found)
      | (.ok project, found) => (next project found).value host := by
  rw [withProject, Consult.value_bind]
  rcases (session.findProject path).value host with ⟨_ | project, found⟩ <;> rfl

/-- The answer to an event that asks for a lint. -/
def lintAnswer
    (outcome : Except EventError (Option LintResult) × Session) :
    SessionAnswer × Session :=
  (.lint outcome.1, outcome.2)

/-- What is done for an event once its project is found. -/
def handle
    (session : Session)
    (host : Host)
    (project : Project) :
    SessionEvent → SessionAnswer × Session
  | .lint path => lintAnswer (calledFor ((session.checkFile project path).value host))
  | .save path =>
      let session := if session.isManifest path then session.forgetCatalog project else session
      lintAnswer (calledFor ((session.checkFile project path).value host))
  | .activate path =>
      let results := (session.hasResults project).value host
      if results.1 then
        lintAnswer ((results.2.checkOwnTarget project path).value host)
      else
        lintAnswer (calledFor ((results.2.checkFile project path).value host))
  | .run path =>
      let listed := (session.catalogOf project).value host
      (.command ((Choice.forFile? path listed.1 .run).elim (.error (.noTarget path)) fun choice =>
        .ok (BuildCommand.run listed.2.settings choice.target)), listed.2)
  | .targets _ =>
      let listed := (session.catalogOf project).value host
      (.targets (.ok listed.1), listed.2)
  | .project _ => (.project (.ok project), session)
  | .clear _ =>
      (.cleared (.ok (session.ledger.clearCount project)),
        { session with ledger := session.ledger.clear project })

/-- The event is a save that calls for no lint, so that the session does not look at it. -/
def Ignores (session : Session) : SessionEvent → Prop
  | .save path =>
      (session.settings.lintOnSave && (session.isManifest path || isSource path)) = false
  | _ => False

/-- Whether an event is ignored depends on the settings only. -/
theorem ignores_iff_of_settings_eq
    {session other : Session}
    (h : session.settings = other.settings)
    (event : SessionEvent) :
    session.Ignores event ↔ other.Ignores event := by
  cases event with
  | save path => rw [Ignores, Ignores, isManifest, isManifest, h]
  | _ => exact Iff.rfl

theorem step_of_ignores
    {session : Session}
    {event : SessionEvent}
    (h : session.Ignores event) :
    session.step event = pure (.lint (.ok none), session) := by
  cases event with
  | save path =>
      have hignored : ¬ (session.settings.lintOnSave &&
          (session.isManifest path || isSource path)) = true := by
        rw [show _ = false from h]
        exact Bool.false_ne_true
      rw [step, save, if_neg hignored]
      rfl
  | _ => exact h.elim

/-- A session that does not ignore an event finds its project first and then handles it. -/
theorem value_step
    {session : Session}
    {event : SessionEvent}
    {host : Host}
    {project : Project}
    (hlook : ¬ session.Ignores event)
    (hfound : (session.found ⟨host, event⟩).1 = .ok project) :
    (session.step event).value host =
      (session.found ⟨host, event⟩).2.handle host project event := by
  have hsettings := session.settings_found ⟨host, event⟩
  have hvalue : (session.findProject event.path).value host =
      (.ok project, (session.found ⟨host, event⟩).2) :=
    Prod.ext hfound rfl
  generalize (session.found ⟨host, event⟩).2 = found at hsettings hvalue ⊢
  cases event with
  | lint path =>
      simp only [SessionEvent.path] at hvalue
      simp [step, lint, value_withProject, hvalue, handle, lintAnswer]
  | save path =>
      simp only [SessionEvent.path] at hvalue
      have hlint : (session.settings.lintOnSave &&
          (session.isManifest path || isSource path)) = true :=
        Bool.eq_true_of_not_eq_false hlook
      have hmanifest : found.isManifest path = session.isManifest path := by
        rw [isManifest, isManifest, hsettings]
      rw [step, save, if_pos hlint, handle, hmanifest]
      simp [value_withProject, hvalue, lintAnswer]
  | activate path =>
      simp only [SessionEvent.path] at hvalue
      simp only [step, activate, Consult.value_bind, hvalue, handle]
      split <;> simp [lintAnswer]
  | run path =>
      simp only [SessionEvent.path] at hvalue
      simp only [step, command, Consult.value_bind, value_withProject, hvalue, handle]
      cases hchoice : Choice.forFile? path ((found.catalogOf project).value host).1 .run <;> simp
  | targets path =>
      simp only [SessionEvent.path] at hvalue
      simp [step, targets, value_withProject, hvalue, handle]
  | project path =>
      simp only [SessionEvent.path] at hvalue
      simp [step, hvalue, handle]
  | clear path =>
      simp only [SessionEvent.path] at hvalue
      simp [step, clear, value_withProject, hvalue, handle]

/-- An event outside every project changes nothing but what is remembered of the search. -/
theorem after_of_found_error
    {session : Session}
    {occurrence : Occurrence}
    {error : EventError}
    (hlook : ¬ session.Ignores occurrence.event)
    (h : (session.found occurrence).1 = .error error) :
    session.after occurrence = (session.found occurrence).2 := by
  have hvalue : (session.findProject occurrence.event.path).value occurrence.host =
      (.error error, (session.found occurrence).2) :=
    Prod.ext h rfl
  generalize (session.found occurrence).2 = found at hvalue ⊢
  obtain ⟨host, event⟩ := occurrence
  unfold after
  cases event with
  | save path =>
      simp only [SessionEvent.path] at hvalue
      have hlint : (session.settings.lintOnSave &&
          (session.isManifest path || isSource path)) = true :=
        Bool.eq_true_of_not_eq_false hlook
      rw [step, save, if_pos hlint]
      simp [value_withProject, hvalue]
  | _ path =>
      simp only [SessionEvent.path] at hvalue
      simp [step, lint, activate, command, targets, clear, calledFor, value_withProject, hvalue]

theorem follows_handle
    (session : Session)
    (host : Host)
    (project : Project)
    (event : SessionEvent) :
    Follows host project session
      (session.effect? host project (session.handle host project event).1)
      (session.handle host project event).2 := by
  cases event with
  | lint path => exact followsLint_checkFile session host project path
  | save path =>
      rw [handle]
      by_cases hmanifest : session.isManifest path = true
      · rw [if_pos hmanifest]
        exact FollowsLint.of_follows (follows_forgetCatalog session host project)
          (followsLint_checkFile _ host project path)
      · rw [if_neg hmanifest]
        exact followsLint_checkFile session host project path
  | activate path =>
      have hresults := follows_hasResults session host project
      rw [handle]
      split
      · exact FollowsLint.of_follows hresults (followsLint_checkOwnTarget _ host project path)
      · exact FollowsLint.of_follows hresults (followsLint_checkFile _ host project path)
  | run path => exact follows_catalogOf session host project
  | targets path => exact follows_catalogOf session host project
  | project path => exact Follows.refl host project session
  | clear path => exact follows_clear session host project

variable {session : Session} {occurrence : Occurrence} {project : Project}

theorem effect?_found
    (session : Session)
    (occurrence : Occurrence) :
    (session.found occurrence).2.effect? = session.effect? := by
  rw [found_snd]
  rfl

/-- All that an event of a project can change, once the project is found. -/
theorem follows_after
    (hlook : ¬ session.Ignores occurrence.event)
    (h : (session.found occurrence).1 = .ok project) :
    Follows occurrence.host project (session.found occurrence).2 (session.recorded? occurrence)
      (session.after occurrence) := by
  have hfollows := follows_handle (session.found occurrence).2 occurrence.host project
    occurrence.event
  rw [effect?_found, ← value_step hlook h] at hfollows
  rw [recorded?, h]
  exact hfollows

/-- An event that is ignored changes nothing. -/
theorem after_of_ignores
    (h : session.Ignores occurrence.event) :
    session.after occurrence = session ∧ session.recorded? occurrence = none := by
  have hstep := step_of_ignores h
  constructor
  · rw [after, hstep]
    rfl
  · rw [recorded?, answer, hstep]
    cases (session.found occurrence).1 <;> rfl

/-- Either nothing is recorded and at most the search shows, or what is recorded follows. -/
theorem after_cases
    (session : Session)
    (occurrence : Occurrence) :
    ((session.after occurrence = session ∨
          session.after occurrence = (session.found occurrence).2) ∧
        session.recorded? occurrence = none) ∨
      ∃ project, (session.found occurrence).1 = .ok project ∧
        Follows occurrence.host project (session.found occurrence).2 (session.recorded? occurrence)
          (session.after occurrence) := by
  by_cases hlook : session.Ignores occurrence.event
  · obtain ⟨hafter, hrecorded⟩ := after_of_ignores hlook
    exact Or.inl ⟨Or.inl hafter, hrecorded⟩
  · cases h : (session.found occurrence).1 with
    | error error =>
        have hrecorded : session.recorded? occurrence = none := by
          rw [recorded?, h]
        exact Or.inl ⟨Or.inr (after_of_found_error hlook h), hrecorded⟩
    | ok project => exact Or.inr ⟨project, rfl, follows_after hlook h⟩

/-- What holds before an event, after its search and after all that can follow holds after it. -/
theorem after_of_follows
    {motive : Session → Prop}
    (hsession : motive session)
    (hfound : motive (session.found occurrence).2)
    (hfollows : ∀ project effect next,
      Follows occurrence.host project (session.found occurrence).2 effect next → motive next) :
    motive (session.after occurrence) := by
  rcases session.after_cases occurrence with ⟨hafter | hafter, -⟩ | ⟨project, -, hnext⟩
  · rw [hafter]
    exact hsession
  · rw [hafter]
    exact hfound
  · exact hfollows project (session.recorded? occurrence) (session.after occurrence) hnext

/-- An event changes the ledger by the operation that it amounts to. -/
theorem ledger_after
    (session : Session)
    (occurrence : Occurrence) :
    (session.after occurrence).ledger =
      (session.recorded? occurrence).elim session.ledger session.ledger.after := by
  rcases session.after_cases occurrence with ⟨hafter | hafter, hrecorded⟩ | ⟨project, -, hfollows⟩
  · rw [hafter, hrecorded, Option.elim_none]
  · rw [hafter, hrecorded, Option.elim_none, ledger_found]
  · rw [hfollows.ledger, ledger_found]

theorem ledger_after_eq_afterAll
    (session : Session)
    (occurrence : Occurrence) :
    (session.after occurrence).ledger =
      session.ledger.afterAll (session.recorded? occurrence).toList := by
  rw [ledger_after]
  cases session.recorded? occurrence <;> rfl

theorem ledger_afterAll
    (session : Session)
    (history : List Occurrence) :
    (session.afterAll history).ledger = session.ledger.afterAll (session.journal history) := by
  induction history generalizing session with
  | nil => rfl
  | cons occurrence later ih =>
      rw [journal, LintLedger.afterAll_append, ← ledger_after_eq_afterAll]
      exact ih (session.after occurrence)

end Session
end TargetLint
