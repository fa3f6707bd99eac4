import TargetLint.Session.Request
import TargetLint.Proofs.Session.Conduct
import TargetLint.Proofs.Session.Reported

/-!
# What an exchange does

An exchange either runs nothing and learns nothing, or works on the targets of one
project.  In the second case its commands, what is listed afterwards, how targets are
checked from then on and whether a lint was run all follow from the target that is due.
-/

namespace TargetLint

/-- A lint was run for the reply, with results or without success. -/
def SessionReply.ran : SessionReply → Bool
  | .answer given => given.ran
  | _ => false

/-- The reply tells the results of a lint. -/
def SessionReply.isLinted : SessionReply → Bool
  | .answer (.lint (.ok (some (.linted _)))) => true
  | _ => false

/-- The reply tells that the build tool could not be run for a lint. -/
def SessionReply.isNotRun : SessionReply → Bool
  | .answer (.lint (.error (.notRun _))) => true
  | _ => false

theorem SessionReply.exists_run_of_isLinted
    {reply : SessionReply}
    (h : reply.isLinted = true) :
    ∃ run, reply = .answer (.lint (.ok (some (.linted run)))) := by
  unfold isLinted at h
  split at h
  · exact ⟨_, rfl⟩
  · cases h

namespace Session

/-- The exchange is answered with the help of these targets of the project. -/
def WorksOn
    (session : Session)
    (exchange : Exchange)
    (project : Project)
    (targets : List Target) :
    Prop :=
  match exchange.request with
  | .event event =>
      ¬ session.Ignores event ∧ event.needsTargets = true ∧
        (session.found ⟨exchange.host, event⟩).1 = .ok project ∧
        targets = session.targetsFor exchange.host project event
  | .hasResults other =>
      other = project ∧ targets = session.targetsWith exchange.host project
  | .overview _ => False

/-- The session when it turns to the targets of a request's project. -/
def preparedFor (session : Session) (project : Project) : SessionRequest → Session
  | .event event => session.prepared project event
  | _ => session

/-- The target that is checked for a request, given the targets of its project. -/
def dueFor?
    (session : Session)
    (project : Project)
    (targets : List Target) :
    SessionRequest → Option Target
  | .event event => session.ledger.due? project targets event
  | _ => none

/-- The exchange runs nothing and teaches the session nothing about targets and modes. -/
structure Idle (session : Session) (exchange : Exchange) : Prop where
  calls : session.calls exchange = []
  catalogs : (session.served exchange).catalogs = session.catalogs
  mode : (session.served exchange).mode = session.mode
  ran : (session.reply exchange).ran = false

/-- All that an exchange does which works on these targets of the project. -/
structure Works
    (session : Session)
    (exchange : Exchange)
    (project : Project)
    (targets : List Target)
    (due : Option Target) : Prop where
  calls : session.calls exchange =
    (session.preparedFor project exchange.request).listing project ++
      due.elim [] (session.checking exchange.host project)
  catalogs : ∀ root, (session.served exchange).catalogs.get? root =
    if project.root.Same root then some targets else session.catalogs.get? root
  mode : (session.served exchange).mode =
    if due.isSome then some (session.modeWith exchange.host project) else session.mode
  ran : (session.reply exchange).ran = due.isSome

variable {session : Session} {exchange : Exchange} {host : Host} {event : SessionEvent}
  {project : Project} {targets : List Target}

theorem served_event
    (session : Session)
    (host : Host)
    (event : SessionEvent) :
    session.served ⟨host, .event event⟩ = session.after ⟨host, event⟩ := by
  rw [served, serve, Consult.value_bind]
  rfl

theorem reply_event
    (session : Session)
    (host : Host)
    (event : SessionEvent) :
    session.reply ⟨host, .event event⟩ = .answer (session.answer ⟨host, event⟩) := by
  rw [reply, serve, Consult.value_bind]
  rfl

theorem calls_event
    (session : Session)
    (host : Host)
    (event : SessionEvent) :
    session.calls ⟨host, .event event⟩ = (session.step event).commands host := by
  have hserve : session.calls ⟨host, .event event⟩ =
      (session.serve (.event event)).commands host := rfl
  rw [hserve, serve, Consult.commands_bind_of_forall_eq_nil fun _ => rfl]

theorem settings_served
    (session : Session)
    (exchange : Exchange) :
    (session.served exchange).settings = session.settings := by
  obtain ⟨host, request⟩ := exchange
  cases request with
  | event event => rw [served_event, settings_after]
  | hasResults project =>
      rw [served, serve, Consult.value_bind, value_hasResults]
      exact session.settings_listed host project
  | overview project => rfl

theorem settings_servedAll
    (session : Session)
    (history : List Exchange) :
    (session.servedAll history).settings = session.settings := by
  induction history generalizing session with
  | nil => rfl
  | cons exchange later ih => exact (ih (session.served exchange)).trans (settings_served session _)

/-- A session turns to a request as it is, unless the request saves the manifest of its project. -/
theorem preparedFor_cases
    (session : Session)
    (project : Project)
    (request : SessionRequest) :
    session.preparedFor project request = session ∨
      ∃ path, request = .event (.save path) ∧ session.isManifest path = true ∧
        session.preparedFor project request = session.forgetCatalog project := by
  cases request with
  | event event =>
      rcases session.prepared_cases project event with hself | ⟨path, rfl, hmanifest, hforget⟩
      · exact Or.inl hself
      · exact Or.inr ⟨path, rfl, hmanifest, hforget⟩
  | _ other => exact Or.inl rfl

theorem settings_preparedFor
    (session : Session)
    (project : Project)
    (request : SessionRequest) :
    (session.preparedFor project request).settings = session.settings := by
  rcases session.preparedFor_cases project request with h | ⟨-, -, -, h⟩
  · rw [h]
  · rw [h]
    rfl

theorem idle_of_ignores
    (h : session.Ignores event) :
    session.Idle ⟨host, .event event⟩ := by
  have hstep := step_of_ignores h
  refine ⟨?_, ?_, ?_, ?_⟩
  · rw [calls_event, hstep]
    rfl
  · rw [served_event, (after_of_ignores h).1]
  · rw [served_event, (after_of_ignores h).1]
  · rw [reply_event, answer, hstep]
    rfl

theorem exists_noProject_of_found
    {occurrence : Occurrence}
    {error : EventError}
    (h : (session.found occurrence).1 = .error error) :
    ∃ failure, error = .noProject failure := by
  rw [found, value_findProject] at h
  dsimp only at h
  cases hlocated : ((ProjectSearch.locate session.settings.manifest session.memory
      occurrence.event.path).value occurrence.host).1 with
  | ok project =>
      rw [hlocated] at h
      cases h
  | error failure =>
      rw [hlocated] at h
      exact ⟨failure, (Except.error.inj h).symm⟩

theorem idle_of_found_error
    {error : EventError}
    (hlook : ¬ session.Ignores event)
    (hfound : (session.found ⟨host, event⟩).1 = .error error) :
    session.Idle ⟨host, .event event⟩ := by
  have hafter := after_of_found_error hlook hfound
  have hvalue : (session.findProject event.path).value host =
      (.error error, (session.found ⟨host, event⟩).2) :=
    Prod.ext hfound rfl
  obtain ⟨failure, rfl⟩ := exists_noProject_of_found hfound
  have hran : ((session.step event).value host).1.ran = false := by
    cases event with
    | save path =>
        simp only [SessionEvent.path] at hvalue
        have hlint : (session.settings.lintOnSave &&
            (session.isManifest path || isSource path)) = true :=
          Bool.eq_true_of_not_eq_false hlook
        rw [step, save, if_pos hlint]
        simp [value_withProject, hvalue, SessionAnswer.ran]
    | _ path =>
        simp only [SessionEvent.path] at hvalue
        simp [step, lint, activate, command, targets, clear, calledFor, value_withProject, hvalue,
          SessionAnswer.ran, Except.map]
  refine ⟨?_, ?_, ?_, ?_⟩
  · rw [calls_event, commands_step_of_error hlook hfound]
  · rw [served_event, hafter, found_snd]
  · rw [served_event, hafter, found_snd]
  · rw [reply_event]
    exact hran

theorem idle_of_not_needsTargets
    (hneeds : event.needsTargets = false)
    (hlook : ¬ session.Ignores event)
    (hfound : (session.found ⟨host, event⟩).1 = .ok project) :
    session.Idle ⟨host, .event event⟩ := by
  obtain ⟨hdue, hcatalogs, hmode, hran⟩ :
      session.ledger.due? project (session.targetsFor host project event) event = none ∧
      ((session.found ⟨host, event⟩).2.handle host project event).2.catalogs = session.catalogs ∧
      ((session.found ⟨host, event⟩).2.handle host project event).2.mode = session.mode ∧
      ((session.found ⟨host, event⟩).2.handle host project event).1.ran = false := by
    rw [found_snd]
    cases event with
    | project path => exact ⟨rfl, rfl, rfl, rfl⟩
    | clear path => exact ⟨rfl, rfl, rfl, rfl⟩
    | _ path => cases hneeds
  rw [← value_step hlook hfound] at hcatalogs hmode hran
  refine ⟨?_, ?_, ?_, ?_⟩
  · rw [calls_event, commands_step hlook hfound, hneeds, hdue]
    rfl
  · rw [served_event]
    exact hcatalogs
  · rw [served_event]
    exact hmode
  · rw [reply_event]
    exact hran

theorem idle_overview
    (session : Session)
    (host : Host)
    (project : Project) :
    session.Idle ⟨host, .overview project⟩ :=
  ⟨rfl, rfl, rfl, rfl⟩

/-- The search for a project does not change with which targets its events are answered. -/
theorem targetsFor_found
    (session : Session)
    (occurrence : Occurrence)
    (host : Host)
    (project : Project)
    (event : SessionEvent) :
    (session.found occurrence).2.targetsFor host project event =
      session.targetsFor host project event := by
  rw [found_snd]
  cases event with
  | save path =>
      rw [targetsFor, targetsFor, prepared, prepared, isManifest, isManifest]
      cases decide (path.fileName? = some session.settings.manifest) <;> rfl
  | _ => rfl

theorem lintReport_found
    (session : Session)
    (occurrence : Occurrence)
    (host : Host)
    (project : Project)
    (target : Target) :
    (session.found occurrence).2.lintReport host project target =
      session.lintReport host project target := by
  rw [found_snd]
  rfl

theorem quietAnswer_found
    (session : Session)
    (occurrence : Occurrence)
    (project : Project)
    (targets : List Target)
    (event : SessionEvent) :
    (session.found occurrence).2.quietAnswer project targets event =
      session.quietAnswer project targets event := by
  rw [found_snd]
  cases event <;> rfl

section

variable {target : Target} (hlook : ¬ session.Ignores event)
  (hfound : (session.found ⟨host, event⟩).1 = .ok project)

include hlook hfound

theorem event_of_due_of_report
    {report : StreamReport}
    (hdue : session.ledger.due? project (session.targetsFor host project event) event =
      some target)
    (hreport : session.lintReport host project target = .ok report) :
    session.answer ⟨host, event⟩ = .lint (.ok (some (.linted (.ofReport target report)))) ∧
      (session.after ⟨host, event⟩).ledger =
        session.ledger.enter target report.diagnostics (host .timeOfDay) := by
  rw [← targetsFor_found session ⟨host, event⟩, ← ledger_found session ⟨host, event⟩] at hdue
  rw [← lintReport_found session ⟨host, event⟩] at hreport
  have hhandle := handle_of_due_of_report _ host project hdue hreport
  rw [ledger_found, ← value_step hlook hfound] at hhandle
  exact hhandle

theorem event_of_due_of_error
    {error : StartError}
    (hdue : session.ledger.due? project (session.targetsFor host project event) event =
      some target)
    (herror : session.lintReport host project target = .error error) :
    session.answer ⟨host, event⟩ = .lint (.error (.notRun error)) ∧
      (session.after ⟨host, event⟩).ledger = session.ledger := by
  rw [← targetsFor_found session ⟨host, event⟩, ← ledger_found session ⟨host, event⟩] at hdue
  rw [← lintReport_found session ⟨host, event⟩] at herror
  have hhandle := handle_of_due_of_error _ host project hdue herror
  rw [ledger_found, ← value_step hlook hfound] at hhandle
  exact hhandle

/-- What an event for which a target is due leads to: the build tool can be run or not. -/
theorem event_of_due
    (hdue : session.ledger.due? project (session.targetsFor host project event) event =
      some target) :
    ((∃ error, session.answer ⟨host, event⟩ = .lint (.error (.notRun error))) ∧
        (session.after ⟨host, event⟩).ledger = session.ledger) ∨
      ∃ report : StreamReport,
        session.answer ⟨host, event⟩ = .lint (.ok (some (.linted (.ofReport target report)))) ∧
          (session.after ⟨host, event⟩).ledger =
            session.ledger.enter target report.diagnostics (host .timeOfDay) := by
  cases hrun : session.lintReport host project target with
  | error error =>
      obtain ⟨hanswer, hledger⟩ := event_of_due_of_error hlook hfound hdue hrun
      exact Or.inl ⟨⟨error, hanswer⟩, hledger⟩
  | ok report => exact Or.inr ⟨report, event_of_due_of_report hlook hfound hdue hrun⟩

theorem answer_of_not_due
    (hdue : session.ledger.due? project (session.targetsFor host project event) event = none) :
    session.answer ⟨host, event⟩ =
      session.quietAnswer project (session.targetsFor host project event) event := by
  rw [answer, value_step hlook hfound, handle_eq, ledger_found, targetsFor_found, hdue]
  exact quietAnswer_found session ⟨host, event⟩ project _ event

theorem ledger_after_of_not_due
    (hneeds : event.needsTargets = true)
    (hdue : session.ledger.due? project (session.targetsFor host project event) event = none) :
    (session.after ⟨host, event⟩).ledger = session.ledger := by
  rw [after, value_step hlook hfound, handle_eq, ledger_found, targetsFor_found, hdue]
  have hprepared : (((session.found ⟨host, event⟩).2.prepared project event).listed host
      project).ledger = session.ledger := by
    rw [ledger_listed, ledger_prepared, ledger_found]
  cases event with
  | project path => cases hneeds
  | clear path => cases hneeds
  | _ path => exact hprepared

end

theorem works_of_event
    (hlook : ¬ session.Ignores event)
    (hneeds : event.needsTargets = true)
    (hfound : (session.found ⟨host, event⟩).1 = .ok project) :
    session.Works ⟨host, .event event⟩ project (session.targetsFor host project event)
      (session.ledger.due? project (session.targetsFor host project event) event) := by
  have hvalue := value_step hlook hfound
  have hcommands := commands_step hlook hfound
  rw [if_pos hneeds] at hcommands
  have htargets := session.targetsFor_found ⟨host, event⟩ host project event
  refine ⟨?_, ?_, ?_, ?_⟩
  · rw [calls_event, hcommands]
    rfl
  · intro root
    rw [served_event, after, hvalue, get?_handle _ host project hneeds, htargets, found_snd]
  · rw [served_event, after, hvalue, mode_handle, htargets, found_snd]
    rfl
  · rw [reply_event, SessionReply.ran, answer, hvalue, ran_handle, htargets, ledger_found]

theorem works_hasResults
    (session : Session)
    (host : Host)
    (project : Project) :
    session.Works ⟨host, .hasResults project⟩ project (session.targetsWith host project) none := by
  have hserved : session.served ⟨host, .hasResults project⟩ = session.listed host project := by
    rw [served, serve, Consult.value_bind, value_hasResults]
    rfl
  refine ⟨?_, ?_, ?_, ?_⟩
  · have hcalls : session.calls ⟨host, .hasResults project⟩ =
        (session.serve (.hasResults project)).commands host := rfl
    rw [hcalls, serve, Consult.commands_bind_of_forall_eq_nil fun _ => rfl, commands_hasResults,
      Option.elim_none, List.append_nil]
    rfl
  · intro root
    rw [hserved, get?_listed]
  · rw [hserved, mode_listed]
    rfl
  · rw [reply, serve, Consult.value_bind]
    rfl

/-- An exchange that works on targets does all that follows from the target that is due. -/
theorem WorksOn.works
    (h : session.WorksOn exchange project targets) :
    session.Works exchange project targets (session.dueFor? project targets exchange.request) := by
  obtain ⟨host, request⟩ := exchange
  cases request with
  | event event =>
      obtain ⟨hlook, hneeds, hfound, rfl⟩ := h
      exact works_of_event hlook hneeds hfound
  | hasResults other =>
      obtain ⟨rfl, rfl⟩ := h
      exact works_hasResults session host other
  | overview other => exact h.elim

/-- Asked for targets, a session replies with those that it works on. -/
theorem WorksOn.reply_targets
    {path : Path}
    (h : session.WorksOn ⟨host, .event (.targets path)⟩ project targets) :
    session.reply ⟨host, .event (.targets path)⟩ = .answer (.targets (.ok targets)) := by
  obtain ⟨hlook, -, hfound, rfl⟩ := h
  rw [reply_event, answer_of_not_due hlook hfound rfl]
  rfl

/-- An exchange that works on no targets is idle. -/
theorem idle_or_worksOn
    (session : Session)
    (exchange : Exchange) :
    session.Idle exchange ∨ ∃ project targets, session.WorksOn exchange project targets := by
  obtain ⟨host, request⟩ := exchange
  cases request with
  | event event =>
      by_cases hlook : session.Ignores event
      · exact Or.inl (idle_of_ignores hlook)
      · cases hfound : (session.found ⟨host, event⟩).1 with
        | error error => exact Or.inl (idle_of_found_error hlook hfound)
        | ok project =>
            cases hneeds : event.needsTargets with
            | false => exact Or.inl (idle_of_not_needsTargets hneeds hlook hfound)
            | true => exact Or.inr ⟨project, _, hlook, hneeds, hfound, rfl⟩
  | hasResults project => exact Or.inr ⟨project, _, rfl, rfl⟩
  | overview project => exact Or.inl (idle_overview session host project)

/-- A mode that is known stays. -/
theorem mode_served_of_eq_some
    {mode : CheckMode}
    (h : session.mode = some mode) :
    (session.served exchange).mode = some mode := by
  rcases idle_or_worksOn session exchange with hidle | ⟨project, targets, hworks⟩
  · rw [hidle.mode, h]
  · rw [hworks.works.mode, modeWith, h]
    exact ite_self (some mode)

theorem fit_served
    (h : session.CatalogsFit)
    (exchange : Exchange) :
    (session.served exchange).CatalogsFit := by
  obtain ⟨host, request⟩ := exchange
  cases request with
  | event event =>
      rw [served_event]
      exact fit_after h ⟨host, event⟩
  | hasResults project =>
      rw [served, serve, Consult.value_bind, value_hasResults]
      exact (follows_catalogOf session host project).fit h
  | overview project => exact h

/-- The session comes about from a fresh one by a list of exchanges. -/
def Reachable (session : Session) : Prop :=
  ∃ settings mode history, (opened settings mode).servedAll history = session

theorem Reachable.fit (h : session.Reachable) : session.CatalogsFit := by
  obtain ⟨settings, mode, history, rfl⟩ := h
  induction history using List.reverseRecOn with
  | nil => exact (sound_opened settings mode).fit
  | append_singleton before last ih =>
      rw [servedAll, List.foldl_append]
      exact fit_served ih last

/-- A host with a project of one library and one binary, in which no check finds anything. -/
def pairHost : Host
  | .capture command =>
      match command.arguments with
      | "metadata" :: _ =>
          .ok ⟨"[[[\"/a/Cargo.toml\",[[\"a\",[\"lib\"],\"/a/l\"],[\"a\",[\"bin\"],\"/a/b\"]]]]]",
            "", some 0⟩
      | _ => .ok ⟨"", "", some 0⟩
  | question => sampleHost default question

end Session
end TargetLint
