import TargetLint.Proofs.LintLedger.Provenance
import TargetLint.Proofs.Session.Journal
import TargetLint.Proofs.Session.Reading
import TargetLint.Proofs.Settings

/-!
# What a session shows

A session enters runs whose targets have the root of the event's project, and their
reports stay within that root.  So every file that it shows lies within a root that
was linted and that it still finds by searching, and clearing all such roots leaves
nothing to show.
-/

namespace TargetLint

/-- The event is the clearing of a project. -/
def SessionEvent.IsClear : SessionEvent → Prop
  | clear _ => True
  | _ => False

namespace Session

variable {session : Session} {occurrence : Occurrence} {project : Project}

/-- A session in which nothing has happened; how targets are checked may be given. -/
def opened (settings : Settings) (mode : Option CheckMode) : Session :=
  { start settings with mode := mode }

theorem settings_after
    (session : Session)
    (occurrence : Occurrence) :
    (session.after occurrence).settings = session.settings := by
  refine after_of_follows (motive := fun next => next.settings = session.settings)
    rfl (session.settings_found occurrence) ?_
  intro project effect next hfollows
  rw [hfollows.settings, settings_found]

theorem fit_after
    (h : session.CatalogsFit)
    (occurrence : Occurrence) :
    (session.after occurrence).CatalogsFit := by
  refine after_of_follows h (h.found occurrence) ?_
  intro project effect next hfollows
  exact hfollows.fit (h.found occurrence)

/-- The search for the project of an event forgets no project. -/
theorem remembers_found
    {root : Path}
    (h : session.memory.Remembers root)
    (occurrence : Occurrence) :
    (session.found occurrence).2.memory.Remembers root := by
  obtain ⟨project, hproject, hroot⟩ := h
  rw [found_snd]
  exact ⟨project, ProjectSearch.mem_projects_of_locate hproject, hroot⟩

theorem remembers_after
    {root : Path}
    (h : session.memory.Remembers root)
    (occurrence : Occurrence) :
    (session.after occurrence).memory.Remembers root := by
  have hfound := remembers_found h occurrence
  refine after_of_follows (motive := fun next => next.memory.Remembers root) h hfound ?_
  intro project effect next hfollows
  rw [hfollows.memory]
  exact hfound

/-- A project that an event leads to covers its path and is remembered by then. -/
theorem covers_and_remembers_of_found
    (h : (session.found occurrence).1 = .ok project) :
    project.covers occurrence.event.path = true ∧
      (session.found occurrence).2.memory.Remembers project.root := by
  rw [found, value_findProject] at h
  rw [found_snd]
  dsimp only at h ⊢
  generalize hlocated : (ProjectSearch.locate session.settings.manifest session.memory
    occurrence.event.path).value occurrence.host = located at h ⊢
  obtain ⟨result, memory⟩ := located
  cases result with
  | error error => cases h
  | ok other =>
      obtain rfl : other = project := Except.ok.inj h
      exact ProjectSearch.locate_ok hlocated

/-- Listed targets are where they belong, and the project of every linted root is remembered. -/
structure Sound (session : Session) : Prop where
  fit : session.CatalogsFit
  remembered : ∀ root, session.ledger.hasAnyRun root = true → session.memory.Remembers root

theorem sound_opened
    (settings : Settings)
    (mode : Option CheckMode) :
    (opened settings mode).Sound where
  fit := fun _ _ h => nomatch h
  remembered := fun _ h => nomatch h

theorem sound_after
    (h : session.Sound)
    (occurrence : Occurrence) :
    (session.after occurrence).Sound := by
  refine ⟨fit_after h.fit occurrence, ?_⟩
  intro root hroot
  rw [ledger_after] at hroot
  rcases session.after_cases occurrence with ⟨-, hrecorded⟩ | ⟨project, hproject, hfollows⟩
  · rw [hrecorded] at hroot
    exact remembers_after (h.remembered root hroot) occurrence
  · cases hrecorded : session.recorded? occurrence with
    | none =>
        rw [hrecorded] at hroot
        exact remembers_after (h.remembered root hroot) occurrence
    | some event =>
        rw [hrecorded, Option.elim_some] at hroot
        rcases LintLedger.hasAnyRun_of_hasAnyRun_after hroot with hold | hsame
        · exact remembers_after (h.remembered root hold) occurrence
        · have hown : event.root.Same project.root :=
            hfollows.own (h.fit.found occurrence) event hrecorded
          obtain ⟨other, hother, hotherRoot⟩ := (covers_and_remembers_of_found hproject).2
          rw [hfollows.memory]
          exact ⟨other, hother, hotherRoot.trans (hown.symm.trans hsame)⟩

theorem sound_afterAll
    (h : session.Sound)
    (history : List Occurrence) :
    (session.afterAll history).Sound := by
  induction history generalizing session with
  | nil => exact h
  | cons occurrence later ih => exact ih (sound_after h occurrence)

/-- The report of a lint is the one on the output that the host gives for the check. -/
theorem exists_output_of_lintReport
    {host : Host}
    {target : Target}
    {report : StreamReport}
    (h : session.lintReport host project target = .ok report) :
    ∃ mode output,
      (host (.capture (BuildCommand.lint session.settings mode target)) : RunReply) =
        .ok output ∧
      report = .ofText (.seenBy session.settings host project) output.stdout := by
  unfold lintReport at h
  dsimp only at h
  cases hreply : host (.capture
      (BuildCommand.lint session.settings (session.modeWith host project) target)) with
  | error error =>
      rw [hreply] at h
      cases h
  | ok output =>
      rw [hreply] at h
      obtain rfl := Except.ok.inj h
      exact ⟨_, output, hreply, value_readStream _ _ _ _⟩

/-- The report of a lint only has files within the project. -/
theorem ownWithin_lintReport
    {host : Host}
    {target : Target}
    {report : StreamReport}
    (h : session.lintReport host project target = .ok report) :
    report.diagnostics.OwnWithin project.root := by
  obtain ⟨mode, output, -, rfl⟩ := exists_output_of_lintReport h
  refine StreamReport.ownWithin_ofStream ?_ (.ofText output.stdout)
  exact session.settings.isAbsolute_manifest

/-- A run is recorded with what the host's reply to the check of its target reports. -/
theorem lintReport_of_effect
    {host : Host}
    {answer : SessionAnswer}
    {target : Target}
    {files : DiagnosticTable}
    {time : TimeOfDay}
    (h : session.effect? host project answer = some (.enter target files time)) :
    ∃ report, session.lintReport host project target = .ok report ∧ report.diagnostics = files := by
  cases answer with
  | lint result =>
      match result with
      | .ok (some (.linted run)) =>
          obtain ⟨report, hreport, hevent⟩ := Option.map_eq_some_iff.1 h
          simp only [LedgerEvent.enter.injEq] at hevent
          obtain ⟨rfl, rfl, -⟩ := hevent
          refine ⟨report, ?_, rfl⟩
          cases hrun : session.lintReport host project run.target with
          | error error =>
              rw [hrun] at hreport
              cases hreport
          | ok other =>
              rw [hrun] at hreport
              rw [Option.some.inj hreport]
      | .ok (some .nothingToDo) => cases h
      | .ok none => cases h
      | .error error => cases h
  | cleared result => cases result <;> cases h
  | command result => cases h
  | targets result => cases h
  | project result => cases h

theorem staysWithin_of_recorded
    (hfit : session.CatalogsFit)
    {event : LedgerEvent}
    (h : session.recorded? occurrence = some event) :
    event.StaysWithin := by
  rcases session.after_cases occurrence with ⟨-, hrecorded⟩ | ⟨project, hproject, hfollows⟩
  · rw [hrecorded] at h
    cases h
  · have hown : event.root.Same project.root := hfollows.own (hfit.found occurrence) event h
    rw [recorded?, hproject] at h
    dsimp only at h
    cases event with
    | clear cleared => trivial
    | enter target files time =>
        obtain ⟨report, hreport, rfl⟩ := lintReport_of_effect h
        exact (ownWithin_lintReport hreport).congr (Path.Same.symm hown)

theorem staysWithin_of_mem_journal
    (hfit : session.CatalogsFit)
    {history : List Occurrence}
    {event : LedgerEvent}
    (h : event ∈ session.journal history) :
    event.StaysWithin := by
  induction history generalizing session with
  | nil => cases h
  | cons occurrence later ih =>
      rcases List.mem_append.1 h with hnow | hlater
      · exact staysWithin_of_recorded hfit (Option.mem_toList.1 hnow)
      · exact ih (fit_after hfit occurrence) hlater

theorem ledger_after_of_isClear
    (hclear : occurrence.event.IsClear)
    (h : (session.found occurrence).1 = .ok project) :
    (session.after occurrence).ledger = session.ledger.clear project := by
  obtain ⟨host, event⟩ := occurrence
  cases event with
  | clear path =>
      rw [after, value_step id h, handle, ledger_found]
  | _ => exact hclear.elim

/-- The clearing of a project brings no file into view. -/
theorem mem_files_of_isClear
    (hclear : occurrence.event.IsClear)
    {file : Path × List Diagnostic}
    (h : file ∈ (session.after occurrence).ledger.view.files) :
    file ∈ session.ledger.view.files := by
  cases hproject : (session.found occurrence).1 with
  | ok project =>
      rw [ledger_after_of_isClear hclear hproject] at h
      exact (List.mem_filter.1 h).1
  | error error =>
      rw [ledger_after, recorded?, hproject] at h
      exact h

theorem mem_files_of_forall_isClear
    {clearing : List Occurrence}
    (hclear : ∀ occurrence ∈ clearing, occurrence.event.IsClear)
    {file : Path × List Diagnostic}
    (h : file ∈ (session.afterAll clearing).ledger.view.files) :
    file ∈ session.ledger.view.files := by
  induction clearing generalizing session with
  | nil => exact h
  | cons occurrence later ih =>
      obtain ⟨hnow, hlater⟩ := List.forall_mem_cons.1 hclear
      exact mem_files_of_isClear hnow (ih hlater h)

/-- A path that denotes a remembered root leads to the project at that root. -/
theorem found_of_remembers
    {root : Path}
    (h : session.memory.Remembers root)
    (hpath : occurrence.event.path.Same root) :
    ∃ project, (session.found occurrence).1 = .ok project ∧ project.root.Same root := by
  obtain ⟨project, henclosing, hroot⟩ := h.enclosing?_same hpath
  refine ⟨project, ?_, hroot⟩
  rw [found, value_findProject, ProjectSearch.value_locate, henclosing]
  rfl

/-- Once a remembered root is cleared, nothing within it is left in view. -/
theorem not_mem_files_of_cleared
    {clearing : List Occurrence}
    {root : Path}
    (hclear : ∀ occurrence ∈ clearing, occurrence.event.IsClear)
    (hremembers : session.memory.Remembers root)
    (hroot : ∃ occurrence ∈ clearing, occurrence.event.path.Same root)
    {file : Path × List Diagnostic}
    (hwithin : file.1.startsWith root = true) :
    file ∉ (session.afterAll clearing).ledger.view.files := by
  induction clearing generalizing session with
  | nil =>
      obtain ⟨occurrence, hoccurrence, -⟩ := hroot
      cases hoccurrence
  | cons occurrence later ih =>
      obtain ⟨hnow, hlater⟩ := List.forall_mem_cons.1 hclear
      obtain ⟨clearer, hclearer, hpath⟩ := hroot
      rcases List.mem_cons.1 hclearer with rfl | hmem
      · obtain ⟨project, hproject, hsame⟩ := found_of_remembers hremembers hpath
        intro hfile
        have hleft := mem_files_of_forall_isClear hlater hfile
        rw [ledger_after_of_isClear hnow hproject] at hleft
        have hkept : (!file.1.startsWith project.root) = true := (List.mem_filter.1 hleft).2
        rw [Path.startsWith_congr_base file.1 hsame, hwithin] at hkept
        cases hkept
      · exact ih hlater (remembers_after hremembers occurrence) ⟨clearer, hmem, hpath⟩

/--
What a session shows after any run.  Every file in view has the list that one recorded run of a
target gave it and that nothing has touched since; it lies within the target's root, which counts
as linted; its list is not empty and speaks of it only; and if the target is a library, its root
has had no library run since.  So once every linted root is cleared, nothing is in view.
-/
theorem view_accounted_for_by_recorded_runs
    (settings : Settings)
    (mode : Option CheckMode)
    (history : List Occurrence) :
    ((opened settings mode).afterAll history).ledger =
        LintLedger.empty.afterAll ((opened settings mode).journal history) ∧
      (∀ file ∈ ((opened settings mode).afterAll history).ledger.view.files,
        ∃ before target files time later,
          (opened settings mode).journal history = before ++ .enter target files time :: later ∧
          files.get? file.1 = some file.2 ∧
          (∀ between next rest, later = between ++ next :: rest →
            ¬ Touches file.1 (before ++ .enter target files time :: between) next) ∧
          file.1.startsWith target.root = true ∧
          ((opened settings mode).afterAll history).ledger.hasAnyRun target.root = true ∧
          file.2 ≠ [] ∧
          (∀ diagnostic ∈ file.2, diagnostic.path.Same file.1) ∧
          (target.isLibrary = true → ∀ event ∈ later, ¬ event.Renews target.root)) ∧
      (∀ clearing : List Occurrence,
        (∀ occurrence ∈ clearing, occurrence.event.IsClear) →
        (∀ root, ((opened settings mode).afterAll history).ledger.hasAnyRun root = true →
          ∃ occurrence ∈ clearing, occurrence.event.path.Same root) →
        (((opened settings mode).afterAll history).afterAll clearing).ledger.view.isEmpty =
          true) := by
  have hsound := sound_afterAll (sound_opened settings mode) history
  have hledger : ((opened settings mode).afterAll history).ledger =
      LintLedger.empty.afterAll ((opened settings mode).journal history) :=
    ledger_afterAll (opened settings mode) history
  have hstays : ∀ event ∈ (opened settings mode).journal history, event.StaysWithin := by
    intro event hevent
    exact staysWithin_of_mem_journal (sound_opened settings mode).fit hevent
  refine ⟨hledger, ?_, ?_⟩
  · intro file hfile
    rw [hledger] at hfile ⊢
    exact LintLedger.exists_run_within_of_mem_files hstays hfile
  · intro clearing hclear hroots
    rw [DiagnosticView.isEmpty, List.isEmpty_iff, List.eq_nil_iff_forall_not_mem]
    intro file hfile
    have hold := mem_files_of_forall_isClear hclear hfile
    rw [hledger] at hold
    obtain ⟨-, target, -, -, -, -, -, -, hwithin, hrun, -⟩ :=
      LintLedger.exists_run_within_of_mem_files hstays hold
    rw [← hledger] at hrun
    exact not_mem_files_of_cleared hclear (hsound.remembered target.root hrun)
      (hroots target.root hrun) hwithin hfile

/-- What the build tool prints about a project with one library; records are written as arrays. -/
def sampleMetadata (root : String) : String :=
  s!"[[[\"{root}/Cargo.toml\",[[\"app\",[\"lib\"],\"{root}/src/lib.rs\"]]]]]"

/-- What the build tool prints when it finds one error in that library. -/
def sampleMessages : String :=
  "[null,null,null,[\"no\",\"error\",null,[[\"src/lib.rs\",1,1,1,2,true]]]]"

/-- A host with two projects next to each other, each with one library that has an error. -/
def sampleHost (time : TimeOfDay) : Host
  | .fileExists path =>
      path.text ∈ ["/a/Cargo.toml", "/a/src/lib.rs", "/b/Cargo.toml", "/b/src/lib.rs"]
  | .isDirectory _ => false
  | .readText _ => none
  | .variable _ => none
  | .currentDirectory => ⟨"/"⟩
  | .homeDirectory => none
  | .timeOfDay => time
  | .capture command =>
      match command.arguments with
      | "metadata" :: _ => .ok ⟨sampleMetadata command.directory.text, "", some 0⟩
      | "check" :: _ => .ok ⟨sampleMessages, "", some 101⟩
      | _ => .ok ⟨"cargo 1.70.0", "", some 0⟩
  | .launch _ => .notStarted

theorem view_accounted_for_in_sample :
    ((opened .default none).afterAll
        [⟨sampleHost default, .lint ⟨"/a/src/lib.rs"⟩⟩]).ledger.view.size = 1 ∧
      (((opened .default none).afterAll [⟨sampleHost default, .lint ⟨"/a/src/lib.rs"⟩⟩]).afterAll
        [⟨sampleHost default, .clear ⟨"/a"⟩⟩]).ledger.view.isEmpty = true := by
  obtain ⟨hroots, hsize⟩ :
      ((opened .default none).afterAll
        [⟨sampleHost default, .lint ⟨"/a/src/lib.rs"⟩⟩]).ledger.projects.keys = [⟨"/a"⟩] ∧
      ((opened .default none).afterAll
        [⟨sampleHost default, .lint ⟨"/a/src/lib.rs"⟩⟩]).ledger.view.size = 1 := by
    decide +kernel
  refine ⟨hsize, ?_⟩
  refine (view_accounted_for_by_recorded_runs .default none
    [⟨sampleHost default, .lint ⟨"/a/src/lib.rs"⟩⟩]).2.2
      [⟨sampleHost default, .clear ⟨"/a"⟩⟩] ?_ ?_
  · intro occurrence hoccurrence
    rw [List.mem_singleton.1 hoccurrence]
    trivial
  · intro root hroot
    obtain ⟨entry, hentry, hsame⟩ := PathTable.contains_iff.1 hroot
    have hkey : entry.1 ∈ [⟨"/a"⟩] := by
      rw [← hroots]
      exact List.mem_map_of_mem hentry
    rw [List.mem_singleton.1 hkey] at hsame
    exact ⟨_, List.mem_singleton_self _, hsame⟩

end Session
end TargetLint
