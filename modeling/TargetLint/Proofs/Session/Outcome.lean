import TargetLint.Proofs.Counts
import TargetLint.Proofs.LintLedger.LibraryOnly
import TargetLint.Proofs.Session.Bookkeeping

/-!
# Outcomes and what is shown after them

A lint tells how many files it found something in, and how many errors and warnings.
These counts are taken from its report, while what is shown afterwards is counted from
the view, which also has what earlier runs left.  The two agree for the library of a
project as long as only the library was linted, and for the first lint of a project.
-/

namespace TargetLint

/-- The counts that a reply tells, if it tells those of a lint. -/
def SessionReply.linted? : SessionReply → Option LintRun
  | .answer (.lint (.ok (some (.linted run)))) => some run
  | _ => none

theorem SessionReply.eq_of_linted?_eq_some
    {reply : SessionReply}
    {run : LintRun}
    (h : reply.linted? = some run) :
    reply = .answer (.lint (.ok (some (.linted run)))) := by
  unfold linted? at h
  split at h
  · rw [Option.some.inj h]
  · cases h

namespace Session

variable {session : Session} {exchange : Exchange} {run : LintRun}

/-- The operation on the ledger that an exchange amounts to. -/
def entered? (session : Session) (exchange : Exchange) : Option LedgerEvent :=
  match exchange.request with
  | .event event => session.recorded? ⟨exchange.host, event⟩
  | _ => none

/-- The operations on the ledger along a list of exchanges. -/
def ledgerLog : Session → List Exchange → List LedgerEvent
  | _, [] => []
  | session, exchange :: later =>
      (session.entered? exchange).toList ++ (session.served exchange).ledgerLog later

theorem ledger_served
    (session : Session)
    (exchange : Exchange) :
    (session.served exchange).ledger =
      session.ledger.afterAll (session.entered? exchange).toList := by
  obtain ⟨host, request⟩ := exchange
  cases request with
  | event event =>
      rw [served_event]
      exact session.ledger_after_eq_afterAll ⟨host, event⟩
  | hasResults project =>
      rw [served, serve, Consult.value_bind, value_hasResults]
      exact session.ledger_listed host project
  | overview project => rfl

theorem ledger_servedAll
    (session : Session)
    (history : List Exchange) :
    (session.servedAll history).ledger = session.ledger.afterAll (session.ledgerLog history) := by
  induction history generalizing session with
  | nil => rfl
  | cons exchange later ih =>
      rw [ledgerLog, LintLedger.afterAll_append, ← ledger_served]
      exact ih (session.served exchange)

theorem staysWithin_of_mem_ledgerLog
    (hfit : session.CatalogsFit)
    {history : List Exchange}
    {event : LedgerEvent}
    (h : event ∈ session.ledgerLog history) :
    event.StaysWithin := by
  induction history generalizing session with
  | nil => cases h
  | cons exchange later ih =>
      rcases List.mem_append.1 h with hnow | hlater
      · have hentered : session.entered? exchange = some event := Option.mem_toList.1 hnow
        obtain ⟨host, request⟩ := exchange
        cases request with
        | event event => exact staysWithin_of_recorded hfit hentered
        | hasResults project => cases hentered
        | overview project => cases hentered
      · exact ih (fit_served hfit exchange) hlater

/-- A reply that tells the counts of a lint stands at the end of a run that is entered. -/
theorem entered?_of_linted
    (h : session.reply exchange = .answer (.lint (.ok (some (.linted run))))) :
    ∃ (report : StreamReport) (time : TimeOfDay),
      run = .ofReport run.target report ∧
      session.entered? exchange = some (.enter run.target report.diagnostics time) := by
  obtain ⟨host, request⟩ := exchange
  cases request with
  | event event =>
      rw [reply_event] at h
      have hanswer := SessionReply.answer.inj h
      obtain ⟨project, report, hlinted⟩ := exists_lintedFor hanswer
      exact ⟨report, host .timeOfDay, hlinted.counts, hlinted.recorded?_eq hanswer⟩
  | hasResults project =>
      rw [reply, serve, Consult.value_bind] at h
      cases h
  | overview project => cases h

/-- What is shown of a project in whose root the view is what a run reported. -/
theorem counts_of_within_eq
    {project : Project}
    {target : Target}
    {report : StreamReport}
    (h : session.ledger.view.within project.root = ⟨report.diagnostics⟩) :
    (session.snapshot project).files.length = (LintRun.ofReport target report).files ∧
      (session.snapshot project).errors = (LintRun.ofReport target report).errors ∧
      (session.snapshot project).warnings = (LintRun.ofReport target report).warnings ∧
      (session.overview project).errors = (LintRun.ofReport target report).errors ∧
      (session.overview project).warnings = (LintRun.ofReport target report).warnings := by
  have hsize := session.ledger.view.length_files_snapshot project.root
  have hcount := session.ledger.view.countOf_snapshot project.root
  have herrors := Overview.errors_ofView session.ledger.view project
  have hwarnings := Overview.warnings_ofView session.ledger.view project
  rw [h] at hsize hcount herrors hwarnings
  exact ⟨hsize, hcount .error, hcount .warning, herrors, hwarnings⟩

/--
A lint of a project after any requests among which only libraries of the project were linted, and
otherwise only projects apart from it.  If the lint is one of a library, or the first one of the
project, then what its reply tells is what is shown right afterwards: the snapshot has as many files,
errors and warnings, and the overview as many errors and warnings.
-/
theorem outcome_matches_display
    (settings : Settings)
    (mode : Option CheckMode)
    (history : List Exchange)
    (exchange : Exchange)
    (project : Project)
    (run : LintRun)
    (session next : Session)
    (hsession : (opened settings mode).servedAll history = session)
    (hnext : session.served exchange = next)
    (hruns : ∀ event ∈ (opened settings mode).ledgerLog history, event.KeepsToLibrary project.root)
    (hreply : session.reply exchange = .answer (.lint (.ok (some (.linted run)))))
    (hroot : run.target.root.Same project.root)
    (htarget : run.target.isLibrary = true ∨
      ∀ event ∈ (opened settings mode).ledgerLog history,
        ¬ event.IsRunOf fun ran => ran.root.Same project.root) :
    (next.snapshot project).files.length = run.files ∧
      (next.snapshot project).errors = run.errors ∧
      (next.snapshot project).warnings = run.warnings ∧
      (next.overview project).errors = run.errors ∧
      (next.overview project).warnings = run.warnings := by
  obtain ⟨report, time, hcounts, hentered⟩ := entered?_of_linted hreply
  have hfit : session.CatalogsFit :=
    Reachable.fit ⟨settings, mode, history, hsession⟩
  have hstays : ∀ event ∈ (opened settings mode).ledgerLog history, event.StaysWithin := by
    intro event hevent
    exact staysWithin_of_mem_ledgerLog (sound_opened settings mode).fit hevent
  have hlog : LedgerEvent.enter run.target report.diagnostics time ∈
      session.ledgerLog [exchange] := by
    rw [ledgerLog, hentered]
    simp
  have hfiles : report.diagnostics.OwnWithin run.target.root :=
    staysWithin_of_mem_ledgerLog hfit hlog
  have hledger : next.ledger = (LintLedger.empty.afterAll
      ((opened settings mode).ledgerLog history)).enter run.target report.diagnostics time := by
    rw [← hnext, ledger_served, hentered, ← hsession, ledger_servedAll]
    rfl
  have hwithin : next.ledger.view.within project.root = ⟨report.diagnostics⟩ := by
    rw [hledger]
    exact LintLedger.within_enter_eq hstays hruns hroot htarget (hfiles.congr hroot) time
  rw [hcounts]
  exact counts_of_within_eq hwithin

/-- The library of one project is linted and cleared, then another project is linted. -/
def outcomeSample : List Exchange :=
  [⟨sampleHost default, .event (.lint ⟨"/a/src/lib.rs"⟩)⟩,
    ⟨sampleHost default, .event (.clear ⟨"/a"⟩)⟩,
    ⟨sampleHost default, .event (.save ⟨"/b/src/lib.rs"⟩)⟩]

/-- The library of the first project is linted again, and its one error is shown. -/
theorem outcome_matches_display_in_sample :
    ((((opened .default none).servedAll outcomeSample).served
        ⟨sampleHost default, .event (.lint ⟨"/a/src/lib.rs"⟩)⟩).snapshot ⟨⟨"/a"⟩⟩).files.length = 1 ∧
      ((((opened .default none).servedAll outcomeSample).served
        ⟨sampleHost default, .event (.lint ⟨"/a/src/lib.rs"⟩)⟩).overview ⟨⟨"/a"⟩⟩).errors = 1 := by
  obtain ⟨hruns, hlinted⟩ :
      (∀ event ∈ (opened .default none).ledgerLog outcomeSample, event.KeepsToLibrary ⟨"/a"⟩) ∧
      (((opened .default none).servedAll outcomeSample).reply
        ⟨sampleHost default, .event (.lint ⟨"/a/src/lib.rs"⟩)⟩).linted? =
          some ⟨⟨"app", .library, ⟨"/a/src/lib.rs"⟩, ⟨"/a"⟩⟩, 1, 1, 0, 0⟩ := by
    decide +kernel
  obtain ⟨hfiles, -, -, herrors, -⟩ := outcome_matches_display .default none
    outcomeSample _ ⟨⟨"/a"⟩⟩ _ _ _ rfl rfl hruns (SessionReply.eq_of_linted?_eq_some hlinted)
    (Path.Same.refl _) (Or.inl rfl)
  exact ⟨hfiles, herrors⟩

end Session
end TargetLint
