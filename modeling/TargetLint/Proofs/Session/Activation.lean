import TargetLint.Proofs.Session.Bookkeeping

/-!
# Activating a file again

A file that comes into view is linted if results are missing: those of the project's
main target, or those of the target that starts at the file.  The lint is one of the
target that serves the file, which need not be the main target.  So after a lint, the
same file is left alone exactly if the results that were missing are there by then;
where the main target's still are not, it is linted every time it comes into view.
-/

namespace TargetLint

namespace LintLedger

/-- Where something of the project has been linted, only a main target can lack results. -/
theorem hasMainResults_iff
    {ledger : LintLedger}
    {project : Project}
    {targets : List Target}
    (hrun : ledger.hasAnyRun project.root = true) :
    ledger.hasMainResults project targets = true ↔
      ∀ main ∈ Choice.forFile? project.root targets .lint,
        ledger.hasLinted main.target = true := by
  rw [hasMainResults]
  cases Choice.forFile? project.root targets .lint with
  | some main => simp
  | none => simpa using hrun

end LintLedger

namespace Session

variable {session : Session} {host : Host} {path : Path} {project : Project}
  {targets : List Target} {target : Target} {run : LintRun}

/-- A file comes into view several times in a row, each time with another host. -/
def activations (path : Path) (hosts : List Host) : List Exchange :=
  hosts.map fun host => ⟨host, .event (.activate path)⟩

/-- The path leads to the project whatever the host, and the project's targets are at hand. -/
structure Knows
    (session : Session)
    (path : Path)
    (project : Project)
    (targets : List Target) : Prop where
  found : ∀ host, (session.found ⟨host, .activate path⟩).1 = .ok project
  listed : session.catalogs.get? project.root = some targets

/-- A path that led to a project leads to it from then on. -/
theorem found_again
    (hfound : (session.found ⟨host, .activate path⟩).1 = .ok project)
    (again : Host) :
    ((session.after ⟨host, .activate path⟩).found ⟨again, .activate path⟩).1 = .ok project := by
  have hfollows : Follows host project _ _ (session.after ⟨host, .activate path⟩) :=
    follows_after id hfound
  have hmemory := hfollows.memory
  rw [found_snd] at hmemory
  rw [found, value_findProject] at hfound
  rw [found, value_findProject, settings_after, hmemory]
  dsimp only [SessionEvent.path] at hfound ⊢
  cases hlocated : ((ProjectSearch.locate session.settings.manifest session.memory path).value
      host).1 with
  | error error =>
      rw [hlocated] at hfound
      cases hfound
  | ok other =>
      rw [hlocated] at hfound
      rw [ProjectSearch.locate_again hlocated]
      exact hfound

theorem knows_served
    (hworks : session.WorksOn ⟨host, .event (.activate path)⟩ project targets) :
    (session.served ⟨host, .event (.activate path)⟩).Knows path project targets := by
  refine ⟨?_, ?_⟩
  · intro again
    rw [served_event]
    exact found_again hworks.2.2.1 again
  · rw [hworks.works.catalogs, if_pos (Path.Same.refl project.root)]

namespace Knows

variable (h : session.Knows path project targets)

include h

theorem targetsFor_eq (host : Host) :
    session.targetsFor host project (.activate path) = targets := by
  have hself : session.targetsFor host project (.activate path) =
      session.targetsWith host project := rfl
  rw [hself, targetsWith, h.listed, Option.getD_some]

theorem worksOn (host : Host) :
    session.WorksOn ⟨host, .event (.activate path)⟩ project targets :=
  ⟨id, rfl, h.found host, (h.targetsFor_eq host).symm⟩

theorem calls (host : Host) :
    session.calls ⟨host, .event (.activate path)⟩ =
      (session.ledger.due? project targets (.activate path)).elim []
        (session.checking host project) := by
  have hlisting : session.listing project = [] := by
    rw [listing, h.listed]
    rfl
  have hprepared : session.preparedFor project (.event (.activate path)) = session := rfl
  rw [(h.worksOn host).works.calls, hprepared, hlisting, List.nil_append]
  rfl

end Knows

/-- Where nothing is missing, a file that comes into view is left alone every time. -/
theorem activations_of_nothing_missing
    (h : session.Knows path project targets)
    (hmain : session.ledger.hasMainResults project targets = true)
    (hown : ∀ own ∈ ownTarget? targets path, session.ledger.hasLinted own = true)
    (hosts : List Host) :
    session.callLog (activations path hosts) = [] ∧
      ∀ reply ∈ session.replies (activations path hosts), reply = .answer (.lint (.ok none)) := by
  induction hosts generalizing session with
  | nil => exact ⟨rfl, fun reply hreply => absurd hreply List.not_mem_nil⟩
  | cons host later ih =>
      have hdue : session.ledger.due? project targets (.activate path) = none := by
        rw [LintLedger.due?, if_pos hmain, Option.filter_eq_none_iff]
        intro own hmem
        simp [hown own hmem]
      have hcalls := h.calls host
      rw [hdue, Option.elim_none] at hcalls
      rw [← h.targetsFor_eq host] at hdue
      have hanswer := answer_of_not_due id (h.found host) hdue
      have hledger := ledger_after_of_not_due id (h.found host) rfl hdue
      rw [quietAnswer, h.targetsFor_eq, if_pos hmain] at hanswer
      rw [← served_event] at hledger
      obtain ⟨hlaterCalls, hlaterReplies⟩ := ih (knows_served (h.worksOn host))
        (by rw [hledger, hmain]) (by rwa [hledger])
      refine ⟨?_, ?_⟩
      · rw [activations, List.map_cons, callLog, hcalls, List.nil_append]
        exact hlaterCalls
      · refine List.forall_mem_cons.2 ⟨?_, hlaterReplies⟩
        rw [reply_event, hanswer]

/-- Where lints of the file never count for the main target, each activation is one more of them. -/
theorem activations_of_main_missing
    {mode : CheckMode}
    {main choice : Choice}
    (h : session.Knows path project targets)
    (hroots : ∀ target ∈ targets, target.root.Same project.root)
    (hmode : session.mode = some mode)
    (hmain : Choice.forFile? project.root targets .lint = some main)
    (hmissing : session.ledger.hasLinted main.target = false)
    (hchoice : Choice.forFile? path targets .lint = some choice)
    (hcounts : ¬ choice.target.CountsFor main.target)
    (hosts : List Host) :
    session.callLog (activations path hosts) =
      List.replicate hosts.length
        (BuildCommand.lint session.settings mode choice.target) := by
  induction hosts generalizing session with
  | nil => rfl
  | cons host later ih =>
      have hresults : session.ledger.hasMainResults project targets = false := by
        rw [LintLedger.hasMainResults, hmain]
        exact hmissing
      have hdue : session.ledger.due? project targets (.activate path) = some choice.target := by
        rw [LintLedger.due?, hresults, if_neg Bool.false_ne_true, hchoice, Option.map_some]
      have hcalls := h.calls host
      rw [hdue, Option.elim_some, checking, modeWith, hmode, Option.isSome_some, if_pos rfl,
        Option.getD_some, List.nil_append] at hcalls
      rw [← h.targetsFor_eq host] at hdue
      have hledger := event_of_due id (h.found host) hdue
      rw [← served_event] at hledger
      have hstill : (session.served ⟨host, .event (.activate path)⟩).ledger.hasLinted
          main.target = false := by
        rcases hledger with ⟨-, hsame⟩ | ⟨report, -, henter⟩
        · rw [hsame, hmissing]
        · have hchoiceRoot := hroots choice.target (Choice.mem_of_forFile? hchoice)
          have hmainRoot := hroots main.target (Choice.mem_of_forFile? hmain)
          rw [henter, ← Bool.not_eq_true,
            LintLedger.hasLinted_enter_iff (hchoiceRoot.trans hmainRoot.symm)]
          rintro (hlinted | hcount)
          · rw [hmissing] at hlinted
            cases hlinted
          · exact hcounts hcount
      have hlater := ih (knows_served (h.worksOn host)) (mode_served_of_eq_some hmode) hstill
      rw [settings_served] at hlater
      rw [activations, List.map_cons, callLog, hcalls, List.length_cons, List.replicate_succ]
      exact congrArg _ hlater

theorem mem_of_due?
    {ledger : LintLedger}
    {event : SessionEvent}
    (h : ledger.due? project targets event = some target) :
    target ∈ targets := by
  have hserving : ∀ path, (Choice.forFile? path targets .lint).map Choice.target = some target →
      target ∈ targets := by
    intro path hpath
    obtain ⟨choice, hchoice, rfl⟩ := Option.map_eq_some_iff.1 hpath
    exact Choice.mem_of_forFile? hchoice
  cases event with
  | lint path => exact hserving path h
  | save path => exact hserving path h
  | activate path =>
      rw [LintLedger.due?] at h
      split at h
      · exact List.mem_of_find?_eq_some (Option.eq_some_of_filter_eq_some h)
      · exact hserving path h
  | _ path => cases h

/-- What an activation that linted a target had due, and what it leaves behind. -/
theorem exists_due_of_linted
    (h : session.reply ⟨host, .event (.activate path)⟩ =
      .answer (.lint (.ok (some (.linted run))))) :
    ∃ project targets, session.WorksOn ⟨host, .event (.activate path)⟩ project targets ∧
      session.ledger.due? project targets (.activate path) = some run.target ∧
      ∃ files time, (session.served ⟨host, .event (.activate path)⟩).ledger =
        session.ledger.enter run.target files time := by
  rw [reply_event] at h
  obtain ⟨project, report, hlinted⟩ := exists_lintedFor (SessionReply.answer.inj h)
  rw [served_event]
  exact ⟨project, _, ⟨hlinted.looked, rfl, hlinted.found, rfl⟩, hlinted.due,
    report.diagnostics, host .timeOfDay, hlinted.ledger⟩

/--
A file that has just been linted comes into view again.  Linted by then are the targets that were
linted before and those that the run counts for.  If the project's main target is among them, and
with it the target that starts at the file, nothing is run and nothing answered, however often the
file comes into view.  If the main target is not, the same lint is run each time.  If only the
target that starts at the file is not, it is the one linted next.
-/
theorem activation_after_lint
    (session next : Session)
    (host : Host)
    (path : Path)
    (run : LintRun)
    (hreachable : session.Reachable)
    (hlinted : session.reply ⟨host, .event (.activate path)⟩ =
      .answer (.lint (.ok (some (.linted run)))))
    (hnext : session.served ⟨host, .event (.activate path)⟩ = next) :
    ∃ project targets mode,
      session.WorksOn ⟨host, .event (.activate path)⟩ project targets ∧
      run.target ∈ targets ∧
      (∀ target ∈ targets, next.ledger.hasLinted target = true ↔
        session.ledger.hasLinted target = true ∨ run.target.CountsFor target) ∧
      ((∀ main ∈ Choice.forFile? project.root targets .lint,
          next.ledger.hasLinted main.target = true) →
        (∀ own ∈ ownTarget? targets path, next.ledger.hasLinted own = true) →
        ∀ hosts, next.callLog (activations path hosts) = [] ∧
          ∀ reply ∈ next.replies (activations path hosts), reply = .answer (.lint (.ok none))) ∧
      (∀ main ∈ Choice.forFile? project.root targets .lint,
        next.ledger.hasLinted main.target = false →
        ∀ hosts, next.callLog (activations path hosts) =
          List.replicate hosts.length (BuildCommand.lint session.settings mode run.target)) ∧
      ((∀ main ∈ Choice.forFile? project.root targets .lint,
          next.ledger.hasLinted main.target = true) →
        ∀ own ∈ ownTarget? targets path, next.ledger.hasLinted own = false →
        ∀ again, next.calls ⟨again, .event (.activate path)⟩ =
          [BuildCommand.lint session.settings mode own]) := by
  subst hnext
  obtain ⟨project, targets, hworks, hdue, files, time, hledger⟩ := exists_due_of_linted hlinted
  have hknows := knows_served hworks
  have hmode := hworks.works.mode
  have hdueFor : session.dueFor? project targets (.event (.activate path)) = some run.target := hdue
  rw [hdueFor, Option.isSome_some, if_pos rfl] at hmode
  have hroots : ∀ target ∈ targets, target.root.Same project.root := by
    intro target htarget
    rw [hworks.2.2.2] at htarget
    exact hreachable.fit.root_of_mem_targetsWith htarget
  have hrun := hroots run.target (mem_of_due? hdue)
  have hiff : ∀ target ∈ targets,
      (session.served ⟨host, .event (.activate path)⟩).ledger.hasLinted target = true ↔
        session.ledger.hasLinted target = true ∨ run.target.CountsFor target := by
    intro target htarget
    rw [hledger]
    exact LintLedger.hasLinted_enter_iff (hrun.trans (hroots target htarget).symm)
  have hany : (session.served ⟨host, .event (.activate path)⟩).ledger.hasAnyRun project.root =
      true := by
    rw [hledger, LintLedger.hasAnyRun_enter, decide_eq_true hrun, Bool.true_or]
  refine ⟨project, targets, session.modeWith host project, hworks, mem_of_due? hdue, hiff, ?_, ?_,
    ?_⟩
  · intro hmain hown hosts
    exact activations_of_nothing_missing hknows ((LintLedger.hasMainResults_iff hany).2 hmain) hown
      hosts
  · intro main hmain hmissing hosts
    have hneither := mt (hiff main.target (Choice.mem_of_forFile? hmain)).2
      (by rw [hmissing]; exact Bool.false_ne_true)
    rw [not_or] at hneither
    have hresults : ¬ session.ledger.hasMainResults project targets = true := by
      rw [LintLedger.hasMainResults, hmain]
      exact hneither.1
    rw [LintLedger.due?, if_neg hresults] at hdue
    obtain ⟨choice, hchoice, hserving⟩ := Option.map_eq_some_iff.1 hdue
    rw [← hserving] at hneither ⊢
    have hlog := activations_of_main_missing hknows hroots hmode hmain hmissing hchoice hneither.2
      hosts
    rwa [settings_served] at hlog
  · intro hmain own hown hmissing again
    have hdueAgain : (session.served ⟨host, .event (.activate path)⟩).ledger.due? project targets
        (.activate path) = some own := by
      rw [LintLedger.due?, if_pos ((LintLedger.hasMainResults_iff hany).2 hmain), hown,
        Option.filter_some, hmissing]
      rfl
    rw [hknows.calls again, hdueAgain, Option.elim_some, checking, modeWith, hmode, settings_served]
    rfl

/-- A session that knows how targets are checked and has linted the library. -/
def librarySample : Session :=
  (opened .default (some .check)).servedAll [⟨pairHost, .event (.activate ⟨"/a/l"⟩)⟩]

/-- Once the library has been linted, the binary's file is linted once. -/
theorem activation_after_lint_of_librarySample :
    (librarySample.reply ⟨pairHost, .event (.activate ⟨"/a/b"⟩)⟩).isLinted = true ∧
      ∀ hosts, (librarySample.served ⟨pairHost, .event (.activate ⟨"/a/b"⟩)⟩).callLog
        (activations ⟨"/a/b"⟩ hosts) = [] := by
  obtain ⟨hfound, hisLinted, hmain, hown⟩ :
      (librarySample.found ⟨pairHost, .activate ⟨"/a/b"⟩⟩).1 = .ok ⟨⟨"/a"⟩⟩ ∧
      (librarySample.reply ⟨pairHost, .event (.activate ⟨"/a/b"⟩)⟩).isLinted = true ∧
      (∀ main ∈ Choice.forFile? ⟨"/a"⟩
          (librarySample.targetsFor pairHost ⟨⟨"/a"⟩⟩ (.activate ⟨"/a/b"⟩)) .lint,
        (librarySample.served ⟨pairHost, .event (.activate ⟨"/a/b"⟩)⟩).ledger.hasLinted
          main.target = true) ∧
      ∀ own ∈ ownTarget? (librarySample.targetsFor pairHost ⟨⟨"/a"⟩⟩ (.activate ⟨"/a/b"⟩)) ⟨"/a/b"⟩,
        (librarySample.served ⟨pairHost, .event (.activate ⟨"/a/b"⟩)⟩).ledger.hasLinted own =
          true := by
    decide +kernel
  obtain ⟨run, hlinted⟩ := SessionReply.exists_run_of_isLinted hisLinted
  obtain ⟨project, targets, mode, ⟨-, -, hproject, rfl⟩, -, -, hsilent, -⟩ :=
    activation_after_lint librarySample _ pairHost ⟨"/a/b"⟩ run ⟨_, _, _, rfl⟩ hlinted rfl
  rw [hfound] at hproject
  obtain rfl := Except.ok.inj hproject
  exact ⟨hisLinted, fun hosts => (hsilent hmain hown hosts).1⟩

/-- A file that has just been linted is not always left alone when it comes into view again. -/
theorem not_forall_silent_after_lint :
    ¬ ∀ (session : Session) (host again : Host) (path : Path) (run : LintRun), session.Reachable →
      session.reply ⟨host, .event (.activate path)⟩ = .answer (.lint (.ok (some (.linted run)))) →
      (session.served ⟨host, .event (.activate path)⟩).reply ⟨again, .event (.activate path)⟩ =
          .answer (.lint (.ok none)) ∧
        (session.served ⟨host, .event (.activate path)⟩).calls
          ⟨again, .event (.activate path)⟩ = [] := by
  intro hsilent
  obtain ⟨hisLinted, hcalls⟩ :
      ((opened .default (some .check)).reply
        ⟨pairHost, .event (.activate ⟨"/a/b"⟩)⟩).isLinted = true ∧
      ¬ ((opened .default (some .check)).served ⟨pairHost, .event (.activate ⟨"/a/b"⟩)⟩).calls
        ⟨pairHost, .event (.activate ⟨"/a/b"⟩)⟩ = [] := by
    decide +kernel
  obtain ⟨run, hlinted⟩ := SessionReply.exists_run_of_isLinted hisLinted
  exact hcalls (hsilent _ pairHost pairHost ⟨"/a/b"⟩ run ⟨_, _, [], rfl⟩ hlinted).2

end Session
end TargetLint
