import TargetLint.Proofs.LintLedger.Freshness
import TargetLint.Proofs.Session.Serving

/-!
# When results are kept

The search for the project, the listing of its targets, the choice among them and the
start of the build tool can all fail, and none of them touches the ledger.  Results
are entered after all that, so an event that does not end in a lint leaves every
result as it was, and one that does changes the record of a single root.  How the
build tool exits and how much of its stream can be read does not matter.
-/

namespace TargetLint

namespace LintLedger

/-- A run changes the record of its root only. -/
theorem get?_projects_enter_of_not_same
    (ledger : LintLedger)
    {target : Target}
    {root : Path}
    (h : ¬ target.root.Same root)
    (files : DiagnosticTable)
    (time : TimeOfDay) :
    (ledger.enter target files time).projects.get? root = ledger.projects.get? root := by
  rw [enter, PathTable.get?_set, if_neg h]

/-- A target whose run was just entered counts as linted. -/
theorem hasLinted_enter_self
    (ledger : LintLedger)
    (target : Target)
    (files : DiagnosticTable)
    (time : TimeOfDay) :
    (ledger.enter target files time).hasLinted target = true := by
  rw [hasLinted_enter_iff (Path.Same.refl target.root)]
  cases hlibrary : target.isLibrary <;> simp [Target.CountsFor, hlibrary]

end LintLedger

namespace Session

variable {session : Session} {occurrence : Occurrence} {project : Project} {run : LintRun}

/-- What is recorded is a run that the answer tells, or the clearing that it tells. -/
theorem recorded?_eq_none
    (hlint : ∀ run, session.answer occurrence ≠ .lint (.ok (some (.linted run))))
    (hclear : ∀ count, session.answer occurrence ≠ .cleared (.ok count)) :
    session.recorded? occurrence = none := by
  rw [recorded?]
  cases (session.found occurrence).1 with
  | error error => rfl
  | ok project =>
      dsimp only
      generalize session.answer occurrence = answer at hlint hclear
      cases answer with
      | lint result =>
          cases result with
          | error error => rfl
          | ok outcome? =>
              cases outcome? with
              | none => rfl
              | some outcome =>
                  cases outcome with
                  | nothingToDo => rfl
                  | linted run => exact absurd rfl (hlint run)
      | cleared result =>
          cases result with
          | ok count => exact absurd rfl (hclear count)
          | error error => rfl
      | command result => rfl
      | targets result => rfl
      | project result => rfl

/-- All that stands behind an answer that tells the counts of a lint. -/
structure LintedFor
    (session : Session)
    (occurrence : Occurrence)
    (run : LintRun)
    (project : Project)
    (report : StreamReport) : Prop where
  looked : ¬ session.Ignores occurrence.event
  found : (session.found occurrence).1 = .ok project
  due : session.ledger.due? project
    (session.targetsFor occurrence.host project occurrence.event) occurrence.event = some run.target
  reported : session.lintReport occurrence.host project run.target = .ok report
  counts : run = .ofReport run.target report
  ledger : (session.after occurrence).ledger =
    session.ledger.enter run.target report.diagnostics (occurrence.host .timeOfDay)

theorem exists_lintedFor
    (h : session.answer occurrence = .lint (.ok (some (.linted run)))) :
    ∃ project report, session.LintedFor occurrence run project report := by
  obtain ⟨host, event⟩ := occurrence
  have hran : ∀ other, (session.reply ⟨host, .event event⟩).ran = other → true = other := by
    rintro other rfl
    rw [reply_event, h]
    rfl
  by_cases hlook : session.Ignores event
  · cases hran _ (idle_of_ignores hlook).ran
  · cases hfound : (session.found ⟨host, event⟩).1 with
    | error error => cases hran _ (idle_of_found_error hlook hfound).ran
    | ok project =>
        cases hdue : session.ledger.due? project (session.targetsFor host project event) event with
        | none =>
            have hquiet := session.ran_quietAnswer project
              (session.targetsFor host project event) event
            rw [← answer_of_not_due hlook hfound hdue, h] at hquiet
            cases hquiet
        | some target =>
            cases hreport : session.lintReport host project target with
            | error error =>
                have hanswer := (event_of_due_of_error hlook hfound hdue hreport).1
                rw [h] at hanswer
                cases hanswer
            | ok report =>
                obtain ⟨hanswer, hledger⟩ := event_of_due_of_report hlook hfound hdue hreport
                rw [h] at hanswer
                cases hanswer
                exact ⟨project, report, hlook, hfound, hdue, hreport, rfl, hledger⟩

/-- The lint is what is recorded of the event. -/
theorem LintedFor.recorded?_eq
    {report : StreamReport}
    (h : session.LintedFor occurrence run project report)
    (hanswer : session.answer occurrence = .lint (.ok (some (.linted run)))) :
    session.recorded? occurrence =
      some (.enter run.target report.diagnostics (occurrence.host .timeOfDay)) := by
  rw [recorded?, h.found, hanswer]
  simp [effect?, lintEffect?, h.reported, Except.toOption]

/--
What an event leaves of the results.  If its answer neither tells the counts of a lint nor that a
project was cleared, the ledger is as it was.  If it tells the counts of a lint, they are those of
the report that was entered for the target; the record of every other root is as it was, and the
target counts as linted, its root as linted now.  A target that is due is linted whenever the build
tool could be run, with whatever exit status and whatever it printed.
-/
theorem results_kept_only_after_lint
    (session : Session)
    (occurrence : Occurrence) :
    ((∀ run, session.answer occurrence ≠ .lint (.ok (some (.linted run)))) →
      (∀ count, session.answer occurrence ≠ .cleared (.ok count)) →
      (session.after occurrence).ledger = session.ledger) ∧
    (∀ run, session.answer occurrence = .lint (.ok (some (.linted run))) →
      ∃ report : StreamReport,
        run = .ofReport run.target report ∧
        (session.after occurrence).ledger =
          session.ledger.enter run.target report.diagnostics (occurrence.host .timeOfDay) ∧
        (∀ root, ¬ run.target.root.Same root →
          (session.after occurrence).ledger.projects.get? root =
            session.ledger.projects.get? root) ∧
        (session.after occurrence).ledger.hasLinted run.target = true ∧
        (session.after occurrence).ledger.lastRun run.target.root =
          some (occurrence.host .timeOfDay)) ∧
    (∀ project target output,
      ¬ session.Ignores occurrence.event →
      (session.found occurrence).1 = .ok project →
      session.ledger.due? project
        (session.targetsFor occurrence.host project occurrence.event) occurrence.event =
          some target →
      occurrence.host (.capture (BuildCommand.lint session.settings
        (session.modeWith occurrence.host project) target)) = .ok output →
      session.answer occurrence = .lint (.ok (some (.linted (.ofReport target
        ((readStream session.settings project output.stdout).value occurrence.host)))))) := by
  refine ⟨?_, ?_, ?_⟩
  · intro hlint hclear
    rw [ledger_after, recorded?_eq_none hlint hclear, Option.elim_none]
  · intro run hrun
    obtain ⟨project, report, hlinted⟩ := exists_lintedFor hrun
    refine ⟨report, hlinted.counts, hlinted.ledger, ?_, ?_, ?_⟩
    · intro root hroot
      rw [hlinted.ledger]
      exact session.ledger.get?_projects_enter_of_not_same hroot _ _
    · rw [hlinted.ledger]
      exact session.ledger.hasLinted_enter_self _ _ _
    · rw [hlinted.ledger, LintLedger.lastRun_enter, if_pos (Path.Same.refl _)]
  · intro project target output hlook hfound hdue houtput
    have hreport : session.lintReport occurrence.host project target =
        .ok ((readStream session.settings project output.stdout).value occurrence.host) := by
      rw [lintReport]
      simp only [houtput]
      rfl
    exact (event_of_due_of_report hlook hfound hdue hreport).1

end Session
end TargetLint
