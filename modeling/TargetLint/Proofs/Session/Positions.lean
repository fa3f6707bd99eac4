import TargetLint.Listing
import TargetLint.Proofs.Diagnostic.Region
import TargetLint.Proofs.Overview.Tour
import TargetLint.Proofs.Session.Outcome
import TargetLint.Proofs.StreamReport.Placement

/-!
# Positions that a session shows

Whatever is in view of a session was yielded by a line that the build tool printed for one of its
exchanges.  So its region is that of a span or the origin, and it has room: counting from one again
when it is printed is exact, in the list of diagnostics as well as in the status.
-/

namespace TargetLint

namespace Listing

/-- A diagnostic with its position as given. -/
def blockAt (project : Project) (diagnostic : Diagnostic) (position : String) : String :=
  let path := (project.pathWithin diagnostic.path).text
  let severity := diagnostic.severity.label ++ diagnostic.codeLabel
  let message := "\n    ".intercalate (Text.lines diagnostic.message)
  s!"{path}:{position}: {severity}: {message}"

/-- A file with errors or warnings, with its position as given. -/
def problemLineAt (file : ProblemFile) (position : String) : String :=
  s!"  {file.label}:{position}  {file.counts}"

/-- The list of diagnostics with all positions counted without a bound. -/
def exactDiagnosticList (project : Project) (snapshot : Snapshot) : String :=
  String.join ((snapshot.files.flatMap Prod.snd).map fun diagnostic =>
    blockAt project diagnostic diagnostic.region.ordinals ++ "\n")

/-- The status with all positions counted without a bound. -/
def exactStatusReport (overview : Overview) (current : Path) (stamp : Option String) : String :=
  let suffix := (stamp.map fun text => "  " ++ text).getD ""
  overview.statusLine current ++ suffix ++ "\n" ++
    String.join (overview.problems.map fun file =>
      problemLineAt file file.anchor.ordinals ++ "\n")

theorem diagnosticBlock_eq
    (project : Project)
    {diagnostic : Diagnostic}
    (h : diagnostic.region.HasRoom) :
    diagnosticBlock project diagnostic =
      blockAt project diagnostic diagnostic.region.ordinals := by
  rw [diagnosticBlock, h.display_eq]
  rfl

theorem problemLine_eq
    {problem : ProblemFile}
    (h : problem.anchor.HasRoom) :
    problemLine problem = problemLineAt problem problem.anchor.ordinals := by
  rw [problemLine, h.display_eq]
  rfl

theorem diagnosticList_eq
    (project : Project)
    {snapshot : Snapshot}
    (h : ∀ file ∈ snapshot.files, ∀ diagnostic ∈ file.2, diagnostic.region.HasRoom) :
    diagnosticList project snapshot = exactDiagnosticList project snapshot := by
  rw [diagnosticList, exactDiagnosticList, printed, List.map_map]
  refine congrArg String.join (List.map_congr_left fun diagnostic hdiagnostic => ?_)
  obtain ⟨file, hfile, hmem⟩ := List.mem_flatMap.1 hdiagnostic
  rw [Function.comp_apply, diagnosticBlock_eq project (h file hfile diagnostic hmem)]

theorem statusReport_eq
    {overview : Overview}
    (h : ∀ problem ∈ overview.problems, problem.anchor.HasRoom)
    (current : Path)
    (stamp : Option String) :
    statusReport overview current stamp = exactStatusReport overview current stamp := by
  have hlines : overview.problems.map problemLine =
      overview.problems.map fun file => problemLineAt file file.anchor.ordinals :=
    List.map_congr_left fun problem hproblem => problemLine_eq (h problem hproblem)
  rw [statusReport, exactStatusReport, hlines, printed, List.map_cons, String.join_cons,
    List.map_map]
  rfl

end Listing

namespace ProjectFiles.Yields

variable {files : ProjectFiles} {text : String} {primary : Message.Span} {diagnostic : Diagnostic}

/-- A diagnostic in the project has the region of its span; any other is an error at the origin. -/
theorem region_cases
    (h : files.Yields text primary diagnostic) :
    ((files.named? primary.fileName).isSome = true ∧ diagnostic.region = primary.region) ∨
      (files.named? primary.fileName = none ∧ diagnostic.severity = .error ∧
        diagnostic.region = .origin) := by
  obtain ⟨record, report, hreported, hreport⟩ := h
  rcases Message.Report.diagnostic?_cases hreport hreported.points with
    ⟨path, hnamed, rfl⟩ | ⟨hnamed, -, rfl⟩
  · exact Or.inl ⟨by rw [hnamed, Option.isSome_some], rfl⟩
  · exact Or.inr ⟨hnamed, rfl, rfl⟩

theorem hasRoom
    (h : files.Yields text primary diagnostic) :
    diagnostic.region.HasRoom := by
  rcases h.region_cases with ⟨-, hregion⟩ | ⟨-, -, hregion⟩
  · rw [hregion]
    exact Region.hasRoom_ofOrdinals _ _ _ _
  · rw [hregion]
    exact Region.hasRoom_origin

/-- In the project the start of the span is shown, zero as one; elsewhere the start of the file. -/
theorem display_region
    (h : files.Yields text primary diagnostic) :
    ((files.named? primary.fileName).isSome = true → diagnostic.region.display =
        s!"{max 1 primary.lineStart.toNat}:{max 1 primary.columnStart.toNat}") ∧
      (files.named? primary.fileName = none →
        diagnostic.severity = .error ∧ diagnostic.region.display = "1:1") := by
  rcases h.region_cases with ⟨hnamed, hregion⟩ | ⟨hnamed, hseverity, hregion⟩
  · refine ⟨fun _ => ?_, fun hnone => ?_⟩
    · rw [hregion]
      exact Position.display_ofOrdinals _ _
    · rw [hnone] at hnamed
      cases hnamed
  · refine ⟨fun hsome => ?_, fun _ => ⟨hseverity, ?_⟩⟩
    · rw [hnamed] at hsome
      cases hsome
    · rw [hregion]
      exact Region.display_origin

/-- The greatest line there is, in column zero. -/
example :
    let files : ProjectFiles := ⟨⟨⟨"/app"⟩⟩, "Cargo.toml", fun _ => true⟩
    let text := "[null,null,null,[\"w\",\"warning\",null,[[\"lib.rs\",4294967295,1,0,1,true]]]]"
    ((StreamReport.ofText files text).diagnostics.entries.flatMap Prod.snd).map
      (fun diagnostic => diagnostic.region.display) = ["4294967295:1"] := by
  decide +kernel

end ProjectFiles.Yields

/-- Every diagnostic of a report is yielded by a line. -/
theorem StreamReport.exists_yields_of_get?
    {files : ProjectFiles}
    {text : String}
    {path : Path}
    {diagnostics : List Diagnostic}
    (h : (ofText files text).diagnostics.get? path = some diagnostics)
    {diagnostic : Diagnostic}
    (hdiagnostic : diagnostic ∈ diagnostics) :
    ∃ primary, files.Yields text primary diagnostic := by
  obtain ⟨key, -, hentry⟩ := PathTable.mem_of_get? h
  obtain ⟨⟨line, hline, hyield⟩, -⟩ := (mem_entry_iff hentry).1 hdiagnostic
  obtain ⟨record, report, primary, hreported, hreport⟩ :=
    Message.exists_reportedIn_of_lineDiagnostic? hline hyield
  exact ⟨primary, record, report, hreported, hreport⟩

/-- The place of a problem file is that of one of its file's diagnostics. -/
theorem Overview.exists_anchor
    {view : DiagnosticView}
    {project : Project}
    {problem : ProblemFile}
    (h : problem ∈ (ofView view project).problems) :
    ∃ file ∈ view.files, ∃ diagnostic ∈ file.2, diagnostic.region = problem.anchor := by
  obtain ⟨file, hfile, -, hproblem⟩ := (mem_problems_iff view project).1 h
  obtain ⟨anchor, hanchor, rfl⟩ := ProblemFile.ofFile?_eq_some_iff.1 hproblem
  have hreached : ∃ severity, ProblemFile.earliest? severity file.2 = some anchor := by
    rcases Option.or_eq_some_iff.1 hanchor with herror | ⟨-, hwarning⟩
    · exact ⟨.error, herror⟩
    · exact ⟨.warning, hwarning⟩
  obtain ⟨severity, hearliest⟩ := hreached
  obtain ⟨diagnostic, hmem, -, hregion⟩ :=
    (ProblemFile.isEarliest_of_earliest? hearliest).reached
  exact ⟨file, hfile, diagnostic, hmem, hregion⟩

namespace Session

variable {session : Session} {exchange : Exchange} {settings : Settings} {mode : Option CheckMode}
  {history : List Exchange} {diagnostic : Diagnostic}

/--
The host of the exchange answers the check of a target with an output that yields the diagnostic
for the span, in view of the files that exist for the host.
-/
def ToldIn
    (settings : Settings)
    (exchange : Exchange)
    (project : Project)
    (primary : Message.Span)
    (diagnostic : Diagnostic) :
    Prop :=
  ∃ mode target output,
    (exchange.host (.capture (BuildCommand.lint settings mode target)) : RunReply) = .ok output ∧
      (ProjectFiles.seenBy settings exchange.host project).Yields output.stdout primary diagnostic

/-- What is entered in the ledger was entered in one of the exchanges. -/
theorem exists_exchange_of_mem_ledgerLog
    {event : LedgerEvent}
    (h : event ∈ session.ledgerLog history) :
    ∃ before exchange later, history = before ++ exchange :: later ∧
      (session.servedAll before).entered? exchange = some event := by
  induction history generalizing session with
  | nil => cases h
  | cons exchange later ih =>
      rcases List.mem_append.1 h with hnow | hlater
      · exact ⟨[], exchange, later, rfl, Option.mem_toList.1 hnow⟩
      · obtain ⟨before, found, rest, rfl, hentered⟩ := ih hlater
        exact ⟨exchange :: before, found, rest, rfl, hentered⟩

/-- The files of a run are those of the report on the output that the host gave for its check. -/
theorem exists_output_of_entered?
    {target : Target}
    {files : DiagnosticTable}
    {time : TimeOfDay}
    (h : session.entered? exchange = some (.enter target files time)) :
    ∃ project mode output,
      (exchange.host (.capture (BuildCommand.lint session.settings mode target)) : RunReply) =
        .ok output ∧
      files = (StreamReport.ofText (.seenBy session.settings exchange.host project)
        output.stdout).diagnostics := by
  obtain ⟨host, request⟩ := exchange
  cases request with
  | event event =>
      rw [entered?] at h
      dsimp only at h
      rw [recorded?] at h
      cases hproject : (session.found ⟨host, event⟩).1 with
      | error error =>
          rw [hproject] at h
          cases h
      | ok project =>
          rw [hproject] at h
          obtain ⟨report, hreport, rfl⟩ := lintReport_of_effect h
          obtain ⟨mode, output, houtput, rfl⟩ := exists_output_of_lintReport hreport
          exact ⟨project, mode, output, houtput, rfl⟩
  | hasResults project => cases h
  | overview project => cases h

/-- Whatever is in view was told in one of the exchanges. -/
theorem exists_toldIn_of_mem_files
    {file : Path × List Diagnostic}
    (hfile : file ∈ ((opened settings mode).servedAll history).ledger.view.files)
    (hdiagnostic : diagnostic ∈ file.2) :
    ∃ exchange ∈ history, ∃ project primary,
      ToldIn settings exchange project primary diagnostic := by
  rw [ledger_servedAll] at hfile
  obtain ⟨earlier, target, files, time, rest, hsplit, hget, -⟩ :=
    LintLedger.exists_run_of_mem_files hfile
  have hevent : .enter target files time ∈ (opened settings mode).ledgerLog history := by
    simp [hsplit]
  obtain ⟨before, exchange, later, rfl, hentered⟩ := exists_exchange_of_mem_ledgerLog hevent
  obtain ⟨project, checkMode, output, houtput, rfl⟩ := exists_output_of_entered? hentered
  have hsettings : ((opened settings mode).servedAll before).settings = settings :=
    settings_servedAll (opened settings mode) before
  rw [hsettings] at houtput hget
  obtain ⟨primary, hyields⟩ := StreamReport.exists_yields_of_get? hget hdiagnostic
  exact ⟨exchange, by simp, project, primary, checkMode, target, output, houtput, hyields⟩

theorem hasRoom_of_mem_files
    {file : Path × List Diagnostic}
    (hfile : file ∈ ((opened settings mode).servedAll history).ledger.view.files)
    (hdiagnostic : diagnostic ∈ file.2) :
    diagnostic.region.HasRoom := by
  obtain ⟨_, -, _, _, _, _, _, -, hyields⟩ := exists_toldIn_of_mem_files hfile hdiagnostic
  exact hyields.hasRoom

/--
The positions that a session shows after any exchanges.  Every region in view has room, and its
diagnostic was told in one of the exchanges.  Whatever a line yields shows the start of its span,
zero as one, if the span names an existing file of the project, and is an error shown at the start
of the file otherwise.  Each line that is printed for a diagnostic or for a problem file of any
project is what it would be with unbounded numbers, and so are the list of diagnostics and the
status as a whole.  Spans that count from one have their regions in their own order.
-/
theorem shown_positions_are_exact
    (settings : Settings)
    (mode : Option CheckMode)
    (history : List Exchange) :
    (∀ file ∈ ((opened settings mode).servedAll history).ledger.view.files,
      ∀ diagnostic ∈ file.2, diagnostic.region.HasRoom ∧
        ∃ exchange ∈ history, ∃ project primary,
          ToldIn settings exchange project primary diagnostic) ∧
    (∀ (files : ProjectFiles) (text : String) (primary : Message.Span) (diagnostic : Diagnostic),
      files.Yields text primary diagnostic →
      ((files.named? primary.fileName).isSome = true → diagnostic.region.display =
          s!"{max 1 primary.lineStart.toNat}:{max 1 primary.columnStart.toNat}") ∧
        (files.named? primary.fileName = none →
          diagnostic.severity = .error ∧ diagnostic.region.display = "1:1")) ∧
    (∀ project : Project,
      (∀ file ∈ (((opened settings mode).servedAll history).snapshot project).files,
        ∀ diagnostic ∈ file.2,
          Listing.diagnosticBlock project diagnostic =
            Listing.blockAt project diagnostic diagnostic.region.ordinals) ∧
      Listing.diagnosticList project
          (((opened settings mode).servedAll history).snapshot project) =
        Listing.exactDiagnosticList project
          (((opened settings mode).servedAll history).snapshot project) ∧
      (∀ problem ∈ (((opened settings mode).servedAll history).overview project).problems,
        problem.anchor.HasRoom ∧
          Listing.problemLine problem =
            Listing.problemLineAt problem problem.anchor.ordinals) ∧
      ∀ current stamp,
        Listing.statusReport (((opened settings mode).servedAll history).overview project)
            current stamp =
          Listing.exactStatusReport (((opened settings mode).servedAll history).overview project)
            current stamp) ∧
    (∀ a b : Message.Span, a.CountsFromOne → b.CountsFromOne →
      a.region.compare b.region = a.compare b) := by
  refine ⟨?_, fun _ _ _ _ hyields => hyields.display_region, ?_,
    fun _ _ => Message.Span.compare_region⟩
  · intro file hfile diagnostic hdiagnostic
    exact ⟨hasRoom_of_mem_files hfile hdiagnostic, exists_toldIn_of_mem_files hfile hdiagnostic⟩
  · intro project
    have hproblems : ∀ problem ∈
        (((opened settings mode).servedAll history).overview project).problems,
        problem.anchor.HasRoom := by
      intro problem hproblem
      obtain ⟨file, hfile, diagnostic, hdiagnostic, hregion⟩ := Overview.exists_anchor hproblem
      rw [← hregion]
      exact hasRoom_of_mem_files hfile hdiagnostic
    have hlisted : ∀ file ∈ (((opened settings mode).servedAll history).snapshot project).files,
        ∀ diagnostic ∈ file.2, diagnostic.region.HasRoom := by
      intro file hfile diagnostic hdiagnostic
      have hview : file ∈ ((opened settings mode).servedAll history).ledger.view.files :=
        (List.mem_filter.1 (List.mem_mergeSort.1 hfile)).1
      exact hasRoom_of_mem_files hview hdiagnostic
    refine ⟨?_, Listing.diagnosticList_eq project hlisted, ?_, Listing.statusReport_eq hproblems⟩
    · intro file hfile diagnostic hdiagnostic
      exact Listing.diagnosticBlock_eq project (hlisted file hfile diagnostic hdiagnostic)
    · intro problem hproblem
      exact ⟨hproblems problem hproblem, Listing.problemLine_eq (hproblems problem hproblem)⟩

end Session
end TargetLint
