import TargetLint.Proofs.Path.Collapsed
import TargetLint.Proofs.StreamReport.Composition
import TargetLint.Proofs.StreamReport.Containment

/-!
# Where the diagnostics of a report are placed

A report that names an existing file of the project becomes a diagnostic on that
file.  An error that names anything else becomes one on the manifest, which tells in
its message where the error is.  The main statement says this of every entry of the
report on a text, and that file names which collapse to the same path never lead to
two entries.

An entry is spelled as the path of its first diagnostic.  So an error from elsewhere
can lend its spelling of the manifest to a warning on the manifest that follows it,
and what exists under the path of the warning need not exist under that spelling.
-/

namespace TargetLint

/-- The part occurs in the text. -/
def Text.Contains (text part : String) : Prop :=
  part.toList <:+: text.toList

theorem Text.Contains.trans
    {text middle part : String}
    (h : Contains text middle)
    (hpart : Contains middle part) :
    Contains text part :=
  List.IsInfix.trans hpart h

theorem Text.contains_intercalate
    {separator part : String}
    {parts : List String}
    (h : part ∈ parts) :
    Contains (separator.intercalate parts) part := by
  induction parts with
  | nil => cases h
  | cons first others ih =>
      cases others with
      | nil =>
          rw [List.mem_singleton.1 h]
          exact ⟨[], [], by simp⟩
      | cons second later =>
          rw [Contains, String.intercalate_cons_cons, String.toList_append]
          rcases List.mem_cons.1 h with rfl | hlater
          · rw [String.toList_append, List.append_assoc]
            exact (List.prefix_append _ _).isInfix
          · exact List.IsInfix.trans (ih hlater) (List.suffix_append _ _).isInfix

namespace Message

theorem Span.contains_outsideText
    (span : Span)
    (origin text : String) :
    Text.Contains (span.outsideText origin text) origin ∧
      Text.Contains (span.outsideText origin text)
        s!"{span.fileName}:{span.lineStart}:{span.columnStart}:" ∧
      Text.Contains (span.outsideText origin text) text ∧
      ∀ line ∈ span.text, Text.Contains (span.outsideText origin text) line := by
  have hplace : Text.Contains (span.outsideText origin text)
      s!"{span.fileName}:{span.lineStart}:{span.columnStart}: {text}" :=
    Text.contains_intercalate (by simp)
  have hshown : ∀ shown : String, toString shown = shown := fun _ => rfl
  refine ⟨?_, hplace.trans ?_, hplace.trans ?_, ?_⟩
  · have hhead : Text.Contains (span.outsideText origin text)
        s!"error in `{origin}` outside this project" :=
      Text.contains_intercalate (by simp)
    exact hhead.trans ⟨"error in `".toList, "` outside this project".toList, by simp [hshown]⟩
  · exact ⟨[], ' ' :: text.toList, by simp [hshown]⟩
  · refine List.IsSuffix.isInfix ⟨
      s!"{span.fileName}:{span.lineStart}:{span.columnStart}: ".toList, ?_⟩
    simp [hshown]
  · intro line hline
    exact Text.contains_intercalate (by simp [hline])

/-- A line of the text decodes to the record, which has the report with its primary span. -/
structure ReportedIn (text : String) (record : Line) (report : Report) (primary : Span) : Prop where
  decodes : ∃ line ∈ Text.lines text, Line.decode? (Text.trim line) = some record
  carries : record.report = some report
  points : report.primary? = some primary

theorem ReportedIn.exists_lineDiagnostic?
    {text : String}
    {record : Line}
    {report : Report}
    {primary : Span}
    (h : ReportedIn text record report primary)
    (files : ProjectFiles) :
    ∃ line ∈ Text.lines text,
      files.lineDiagnostic? line = report.diagnostic? files record.origin := by
  obtain ⟨line, hline, hdecoded⟩ := h.decodes
  refine ⟨line, hline, ?_⟩
  have hempty : Line.decode? "" = none := by decide
  have hblank : Text.trim line ≠ "" := by
    intro hblank
    rw [hblank, hempty] at hdecoded
    cases hdecoded
  simp [ProjectFiles.lineDiagnostic?, Line.diagnostic?, hblank, hdecoded, h.carries]

theorem exists_reportedIn_of_lineDiagnostic?
    {files : ProjectFiles}
    {text line : String}
    {diagnostic : Diagnostic}
    (hline : line ∈ Text.lines text)
    (h : files.lineDiagnostic? line = some diagnostic) :
    ∃ record report primary, ReportedIn text record report primary ∧
      report.diagnostic? files record.origin = some diagnostic := by
  unfold ProjectFiles.lineDiagnostic? at h
  split at h
  · cases h
  · obtain ⟨record, hdecoded, hrecord⟩ := Option.bind_eq_some_iff.1 h
    obtain ⟨report, hreport, hdiagnostic⟩ := Option.bind_eq_some_iff.1 hrecord
    obtain ⟨-, primary, hprimary⟩ := Report.primary?_of_diagnostic? hdiagnostic
    exact ⟨record, report, primary, ⟨⟨line, hline, hdecoded⟩, hreport, hprimary⟩, hdiagnostic⟩

end Message

namespace ProjectFiles

/-- What exists does not depend on how a path is spelled. -/
def IgnoresSpelling (files : ProjectFiles) : Prop :=
  ∀ p q : Path, p.Same q → files.holds p = files.holds q

/-- A diagnostic under a key, on the existing file of the project that the primary span names. -/
structure InTree
    (files : ProjectFiles)
    (key : Path)
    (report : Message.Report)
    (primary : Message.Span)
    (diagnostic : Diagnostic) : Prop where
  isAbsolute : key.isAbsolute = true
  hasNoDots : .here ∉ key.components ∧ .up ∉ key.components
  location : diagnostic.path = files.project.locationOf primary.fileName
  isOwn : diagnostic.path.Same key
  holds : files.holds diagnostic.path = true
  content : diagnostic = report.onFile primary diagnostic.path

/-- A diagnostic under a key, on the manifest, for an error that points outside the project. -/
structure Promoted
    (files : ProjectFiles)
    (key : Path)
    (record : Message.Line)
    (report : Message.Report)
    (primary : Message.Span)
    (diagnostic : Diagnostic) : Prop where
  key : key.Same files.manifestFile
  location : diagnostic.path = files.manifestFile
  outside : files.named? primary.fileName = none
  level : Severity.ofLevel report.level = .error
  region : diagnostic.region = .origin
  severity : diagnostic.severity = .error
  code : diagnostic.code = report.code
  origin : Text.Contains diagnostic.message record.origin
  place : Text.Contains diagnostic.message
    s!"{primary.fileName}:{primary.lineStart}:{primary.columnStart}:"
  text : Text.Contains diagnostic.message (report.text primary)
  source : ∀ line ∈ primary.text, Text.Contains diagnostic.message line

/-- A line of the text has a report on the primary span that becomes the diagnostic. -/
def Yields
    (files : ProjectFiles)
    (text : String)
    (primary : Message.Span)
    (diagnostic : Diagnostic) : Prop :=
  ∃ record report, Message.ReportedIn text record report primary ∧
    report.diagnostic? files record.origin = some diagnostic

variable {files : ProjectFiles} {origin : String} {report : Message.Report}
  {primary : Message.Span} {key path : Path} {diagnostic : Diagnostic}

theorem exists_components_locationOf
    (hroot : files.project.root.isAbsolute = true)
    (fileName : String) :
    ∃ names, (files.project.locationOf fileName).components = .root :: names ∧
      ∀ component ∈ names, component.IsName :=
  Path.exists_components_collapse (Path.isAbsolute_join hroot ⟨fileName⟩)

theorem inTree_onFile
    (hroot : files.project.root.isAbsolute = true)
    (hnamed : files.named? primary.fileName = some path)
    (hkey : path.Same key) :
    files.InTree key report primary (report.onFile primary path) := by
  obtain ⟨hlocation, -, hholds⟩ := named?_eq_some_iff.1 hnamed
  obtain ⟨names, hcomponents, hnames⟩ := exists_components_locationOf hroot primary.fileName
  have hkeyComponents : key.components = .root :: names := by
    rw [← hcomponents, ← hlocation]
    exact hkey.symm
  have hdots : ∀ component ∈ key.components, component = .root ∨ component.IsName := by
    intro component hcomponent
    rw [hkeyComponents] at hcomponent
    rcases List.mem_cons.1 hcomponent with hfirst | hlater
    · exact Or.inl hfirst
    · exact Or.inr (hnames component hlater)
  refine ⟨Path.isAbsolute_of_components hkeyComponents, ⟨?_, ?_⟩, hlocation, hkey, hholds, rfl⟩
  · intro hhere
    rcases hdots .here hhere with hroot | ⟨text, hname⟩
    · cases hroot
    · cases hname
  · intro hup
    rcases hdots .up hup with hroot | ⟨text, hname⟩
    · cases hroot
    · cases hname

/-- The file exists under the key as well, if what exists does not depend on the spelling. -/
theorem InTree.holds_key
    (h : files.InTree key report primary diagnostic)
    (hspelling : files.IgnoresSpelling) :
    files.holds key = true := by
  rw [← hspelling diagnostic.path key h.isOwn]
  exact h.holds

theorem promoted_onManifest
    {record : Message.Line}
    (houtside : files.named? primary.fileName = none)
    (hlevel : Severity.ofLevel report.level = .error)
    (hkey : files.manifestFile.Same key) :
    files.Promoted key record report primary
      (report.onManifest files record.origin primary) := by
  obtain ⟨horigin, hplace, htext, hsource⟩ :=
    primary.contains_outsideText record.origin (report.text primary)
  exact ⟨hkey.symm, rfl, houtside, hlevel, rfl, rfl, rfl, horigin, hplace, htext, hsource⟩

theorem inTree_or_promoted
    {record : Message.Line}
    (hroot : files.project.root.isAbsolute = true)
    (hreport : report.diagnostic? files record.origin = some diagnostic)
    (hprimary : report.primary? = some primary)
    (hkey : diagnostic.path.Same key) :
    files.InTree key report primary diagnostic ∨
      files.Promoted key record report primary diagnostic := by
  rcases Message.Report.diagnostic?_cases hreport hprimary with
    ⟨path, hnamed, rfl⟩ | ⟨houtside, hlevel, rfl⟩
  · exact Or.inl (inTree_onFile hroot hnamed hkey)
  · exact Or.inr (promoted_onManifest houtside hlevel hkey)

theorem named?_eq_of_same
    (hroot : files.project.root.isAbsolute = true)
    {fileName other : String}
    (h : (files.project.locationOf fileName).Same (files.project.locationOf other)) :
    files.named? fileName = files.named? other := by
  have hlocation : files.project.locationOf fileName = files.project.locationOf other :=
    Path.collapse_eq_of_same (Path.isAbsolute_join hroot ⟨fileName⟩)
      (Path.isAbsolute_join hroot ⟨other⟩) h
  rw [named?, named?, Project.place?_eq, Project.place?_eq, hlocation]

theorem Yields.path_eq
    {text : String}
    (h : files.Yields text primary diagnostic) :
    diagnostic.path = (files.named? primary.fileName).getD files.manifestFile := by
  obtain ⟨record, report, hreported, hreport⟩ := h
  rcases Message.Report.diagnostic?_cases hreport hreported.points with
    ⟨path, hnamed, rfl⟩ | ⟨hnamed, -, rfl⟩
  · rw [hnamed]
    rfl
  · rw [hnamed]
    rfl

end ProjectFiles

namespace StreamReport

variable {files : ProjectFiles} {text : String}

theorem mem_entry_iff
    {entry : Path × List Diagnostic}
    (hentry : entry ∈ (ofText files text).diagnostics.entries)
    {diagnostic : Diagnostic} :
    diagnostic ∈ entry.2 ↔
      (∃ line ∈ Text.lines text, files.lineDiagnostic? line = some diagnostic) ∧
        diagnostic.path.Same entry.1 := by
  have hlist : entry.2 = (ofText files text).diagnostics.diagnosticsOf entry.1 := by
    rw [DiagnosticTable.diagnosticsOf, PathTable.get?_of_mem hentry, Option.getD_some]
  rw [hlist, diagnosticsOf_ofText, List.mem_filter, List.mem_filterMap, decide_eq_true_eq]

theorem exists_entry_of_lineDiagnostic?
    {line : String}
    (hline : line ∈ Text.lines text)
    {diagnostic : Diagnostic}
    (h : files.lineDiagnostic? line = some diagnostic) :
    ∃ entry ∈ (ofText files text).diagnostics.entries, entry.1.Same diagnostic.path := by
  have hmem : diagnostic ∈ (ofText files text).diagnostics.diagnosticsOf diagnostic.path := by
    rw [diagnosticsOf_ofText, List.mem_filter, List.mem_filterMap]
    exact ⟨⟨line, hline, h⟩, decide_eq_true (Path.Same.refl _)⟩
  cases hget : (ofText files text).diagnostics.get? diagnostic.path with
  | none =>
      rw [DiagnosticTable.diagnosticsOf, hget] at hmem
      cases hmem
  | some diagnostics =>
      obtain ⟨key, hsame, hentry⟩ := PathTable.mem_of_get? hget
      exact ⟨(key, diagnostics), hentry, hsame⟩

/-- Every entry has what lines of the text yield, on the project's own files or its manifest. -/
theorem placed_of_mem_entry
    (hroot : files.project.root.isAbsolute = true)
    {entry : Path × List Diagnostic}
    (hentry : entry ∈ (ofText files text).diagnostics.entries)
    {diagnostic : Diagnostic}
    (hdiagnostic : diagnostic ∈ entry.2) :
    ∃ record report primary, Message.ReportedIn text record report primary ∧
      (files.InTree entry.1 report primary diagnostic ∨
        files.Promoted entry.1 record report primary diagnostic) := by
  obtain ⟨⟨line, hline, hyield⟩, hsame⟩ := (mem_entry_iff hentry).1 hdiagnostic
  obtain ⟨record, report, primary, hreported, hreport⟩ :=
    Message.exists_reportedIn_of_lineDiagnostic? hline hyield
  exact ⟨record, report, primary, hreported,
    ProjectFiles.inTree_or_promoted hroot hreport hreported.points hsame⟩

/-- An entry is spelled as a path at which something exists, or as the manifest. -/
theorem holds_or_eq_manifestFile_of_mem
    (hroot : files.project.root.isAbsolute = true)
    {entry : Path × List Diagnostic}
    (hentry : entry ∈ (ofText files text).diagnostics.entries) :
    files.holds entry.1 = true ∨ entry.1 = files.manifestFile := by
  obtain ⟨first, rest, hlist, hkey⟩ := isHeaded_ofStream files (.ofText text) entry hentry
  have hfirst : first ∈ entry.2 := by
    rw [hlist]
    exact List.mem_cons_self
  rw [← hkey]
  obtain ⟨_, _, _, -, hinTree | hpromoted⟩ := placed_of_mem_entry hroot hentry hfirst
  · exact Or.inl hinTree.holds
  · exact Or.inr hpromoted.location

/-- What a report of the text has to say is in an entry. -/
theorem exists_mem_entry_of_reportedIn
    (hroot : files.project.root.isAbsolute = true)
    {record : Message.Line}
    {report : Message.Report}
    {primary : Message.Span}
    (hreported : Message.ReportedIn text record report primary)
    (hremark : Message.isClosingRemark report.message = false)
    (hkept : files.named? primary.fileName ≠ none ∨ Severity.ofLevel report.level = .error) :
    ∃ entry ∈ (ofText files text).diagnostics.entries, ∃ diagnostic ∈ entry.2,
      files.InTree entry.1 report primary diagnostic ∨
        files.Promoted entry.1 record report primary diagnostic := by
  obtain ⟨diagnostic, hreport⟩ :=
    report.exists_diagnostic? files record.origin hremark hreported.points hkept
  obtain ⟨line, hline, hyield⟩ := hreported.exists_lineDiagnostic? files
  rw [hreport] at hyield
  obtain ⟨entry, hentry, hkey⟩ := exists_entry_of_lineDiagnostic? hline hyield
  exact ⟨entry, hentry, diagnostic, (mem_entry_iff hentry).2 ⟨⟨line, hline, hyield⟩, hkey.symm⟩,
    ProjectFiles.inTree_or_promoted hroot hreport hreported.points hkey.symm⟩

/-- Diagnostics on one path are in one entry and in no other. -/
theorem exists_entry_of_path_eq
    {primary other : Message.Span}
    {diagnostic otherDiagnostic : Diagnostic}
    (h : files.Yields text primary diagnostic)
    (hother : files.Yields text other otherDiagnostic)
    (hpath : diagnostic.path = otherDiagnostic.path) :
    ∃ entry ∈ (ofText files text).diagnostics.entries,
      diagnostic ∈ entry.2 ∧ otherDiagnostic ∈ entry.2 ∧
        ∀ further ∈ (ofText files text).diagnostics.entries,
          diagnostic ∈ further.2 ∨ otherDiagnostic ∈ further.2 → further = entry := by
  obtain ⟨record, report, hreported, hreport⟩ := h
  obtain ⟨otherRecord, otherReport, hotherReported, hotherReport⟩ := hother
  obtain ⟨line, hline, hyield⟩ := hreported.exists_lineDiagnostic? files
  obtain ⟨otherLine, hotherLine, hotherYield⟩ := hotherReported.exists_lineDiagnostic? files
  rw [hreport] at hyield
  rw [hotherReport] at hotherYield
  obtain ⟨entry, hentry, hkey⟩ := exists_entry_of_lineDiagnostic? hline hyield
  refine ⟨entry, hentry, ?_, ?_, ?_⟩
  · exact (mem_entry_iff hentry).2 ⟨⟨line, hline, hyield⟩, hkey.symm⟩
  · rw [hpath] at hkey
    exact (mem_entry_iff hentry).2 ⟨⟨otherLine, hotherLine, hotherYield⟩, hkey.symm⟩
  · intro further hfurther hmem
    refine PathTable.entry_eq_of_same hfurther hentry ?_
    rcases hmem with hmem | hmem
    · exact ((mem_entry_iff hfurther).1 hmem).2.symm.trans hkey.symm
    · rw [hpath] at hkey
      exact ((mem_entry_iff hfurther).1 hmem).2.symm.trans hkey.symm

/--
The report on a text, for an absolute root and a manifest that is named by one component.  Every
entry has diagnostics of its own, lies in the project, and each of its diagnostics is on an
existing file of the project, under an absolute path without dots, or is an error from elsewhere
on the manifest, which tells where it is.  So what is no error is on an existing file of the
project.  An entry is spelled as a path at which something exists, or as the manifest; where what
exists does not depend on the spelling, something exists at the key of every diagnostic on an
existing file.  Nothing is lost: what a report says about an existing file of the project, and
every error, closing remarks apart, is in an entry.  Spans whose file names collapse to the same
path have their diagnostics in one entry.
-/
theorem entries_in_tree_or_promoted
    {name : String}
    (hroot : files.project.root.isAbsolute = true)
    (hmanifest : (Path.mk files.manifest).components = [.name name])
    (text : String) :
    (∀ entry ∈ (ofText files text).diagnostics.entries,
      entry.2 ≠ [] ∧ files.project.covers entry.1 = true ∧
      (files.holds entry.1 = true ∨ entry.1 = files.manifestFile) ∧
      ∀ diagnostic ∈ entry.2,
        diagnostic.path.Same entry.1 ∧
        (∃ record report primary, Message.ReportedIn text record report primary ∧
          (files.InTree entry.1 report primary diagnostic ∨
            files.Promoted entry.1 record report primary diagnostic)) ∧
        (diagnostic.severity ≠ .error →
          files.holds diagnostic.path = true ∧ files.project.covers diagnostic.path = true)) ∧
    (files.IgnoresSpelling →
      ∀ entry ∈ (ofText files text).diagnostics.entries, ∀ diagnostic ∈ entry.2,
        ∀ report primary, files.InTree entry.1 report primary diagnostic →
          files.holds entry.1 = true) ∧
    (∀ record report primary, Message.ReportedIn text record report primary →
      Message.isClosingRemark report.message = false →
      files.named? primary.fileName ≠ none ∨ Severity.ofLevel report.level = .error →
      ∃ entry ∈ (ofText files text).diagnostics.entries, ∃ diagnostic ∈ entry.2,
        files.InTree entry.1 report primary diagnostic ∨
          files.Promoted entry.1 record report primary diagnostic) ∧
    (∀ primary diagnostic other otherDiagnostic,
      files.Yields text primary diagnostic → files.Yields text other otherDiagnostic →
      (files.project.locationOf primary.fileName).Same
        (files.project.locationOf other.fileName) →
      ∃ entry ∈ (ofText files text).diagnostics.entries,
        diagnostic ∈ entry.2 ∧ otherDiagnostic ∈ entry.2 ∧
          ∀ further ∈ (ofText files text).diagnostics.entries,
            diagnostic ∈ further.2 ∨ otherDiagnostic ∈ further.2 → further = entry) := by
  have hrelative : (Path.mk files.manifest).isAbsolute = false :=
    Path.isAbsolute_eq_false_of_lead (Path.lead_eq_none_of_components_eq_name hmanifest)
  refine ⟨?_, ?_, ?_, ?_⟩
  · intro entry hentry
    obtain ⟨hcovers, hnonempty, hown⟩ :=
      ownWithin_ofStream hrelative (.ofText text) entry.1 entry.2 (PathTable.get?_of_mem hentry)
    refine ⟨hnonempty, hcovers, holds_or_eq_manifestFile_of_mem hroot hentry, ?_⟩
    intro diagnostic hdiagnostic
    have hsame := hown diagnostic hdiagnostic
    have hplaced := placed_of_mem_entry hroot hentry hdiagnostic
    refine ⟨hsame, hplaced, ?_⟩
    intro hseverity
    obtain ⟨record, report, primary, -, hinTree | hpromoted⟩ := hplaced
    · refine ⟨hinTree.holds, ?_⟩
      rw [Project.covers, Path.startsWith_congr files.project.root hsame]
      exact hcovers
    · exact absurd hpromoted.severity hseverity
  · intro hspelling entry hentry diagnostic hdiagnostic report primary hinTree
    exact hinTree.holds_key hspelling
  · intro record report primary
    exact exists_mem_entry_of_reportedIn hroot
  · intro primary diagnostic other otherDiagnostic hyields hotherYields hsame
    refine exists_entry_of_path_eq hyields hotherYields ?_
    rw [hyields.path_eq, hotherYields.path_eq, ProjectFiles.named?_eq_of_same hroot hsame]

/-- An error in another tree, and then warnings on a file and on the manifest. -/
def sampleText : String :=
  "[null,null,null,[\"e\",\"error\",null,[[\"/x.rs\",2,2,5,8,true]]]]\n" ++
  "[null,null,null,[\"w\",\"warning\",null,[[\"x/../lib.rs\",4,4,9,14,true]]]]\n" ++
  "[null,null,null,[\"w\",\"warning\",null,[[\"Cargo.toml\",1,1,1,2,true]]]]"

theorem stream_sampleText :
    MessageStream.ofText sampleText =
      [(1, some ⟨none, none, none, some ⟨"e", "error", none,
          [⟨"/x.rs", 2, 2, 5, 8, true, none, []⟩], []⟩⟩),
        (2, some ⟨none, none, none, some ⟨"w", "warning", none,
          [⟨"x/../lib.rs", 4, 4, 9, 14, true, none, []⟩], []⟩⟩),
        (3, some ⟨none, none, none, some ⟨"w", "warning", none,
          [⟨"Cargo.toml", 1, 1, 1, 2, true, none, []⟩], []⟩⟩)] := by
  decide +kernel

/-- A project with one file, which exists under one spelling of its path. -/
def sampleFiles (root file : String) : ProjectFiles :=
  { project := ⟨⟨root⟩⟩
    manifest := "Cargo.toml"
    holds := fun path => path.text = file }

/-- What the error becomes, by the spelling of the manifest. -/
def sampleError (manifest : String) : Diagnostic :=
  ⟨⟨manifest⟩, .origin, .error, "error in `unknown crate` outside this project\n/x.rs:2:5: e",
    none⟩

/-- What the warning on the file becomes. -/
def sampleWarning : Diagnostic :=
  ⟨⟨"/app/lib.rs"⟩, .ofOrdinals 4 9 4 14, .warning, "w", none⟩

/-- What the warning on the manifest becomes. -/
def manifestWarning : Diagnostic :=
  ⟨⟨"/work/app/Cargo.toml"⟩, .ofOrdinals 1 1 1 2, .warning, "w", none⟩

theorem entries_sampleText :
    (ofText (sampleFiles "/app" "/app/lib.rs") sampleText).diagnostics.entries =
        [(⟨"/app/Cargo.toml"⟩, [sampleError "/app/Cargo.toml"]),
          (⟨"/app/lib.rs"⟩, [sampleWarning])] ∧
      (ofText (sampleFiles "/work//app" "/work/app/Cargo.toml") sampleText).diagnostics.entries =
        [(⟨"/work//app/Cargo.toml"⟩, [sampleError "/work//app/Cargo.toml", manifestWarning])] := by
  rw [ofText, ofText, stream_sampleText]
  constructor <;> decide +kernel

theorem entries_in_tree_or_promoted_sample :
    (sampleFiles "/app" "/app/lib.rs").project.root.isAbsolute = true ∧
      (Path.mk (sampleFiles "/app" "/app/lib.rs").manifest).components = [.name "Cargo.toml"] ∧
      (∃ record report primary, Message.ReportedIn sampleText record report primary ∧
        (sampleFiles "/app" "/app/lib.rs").InTree ⟨"/app/lib.rs"⟩ report primary
          sampleWarning) ∧
      ∃ record report primary, Message.ReportedIn sampleText record report primary ∧
        (sampleFiles "/app" "/app/lib.rs").Promoted ⟨"/app/Cargo.toml"⟩ record report primary
          (sampleError "/app/Cargo.toml") := by
  have hroot : (sampleFiles "/app" "/app/lib.rs").project.root.isAbsolute = true := by decide
  have hmanifest : (Path.mk (sampleFiles "/app" "/app/lib.rs").manifest).components =
      [.name "Cargo.toml"] := by decide
  have hentries := (entries_in_tree_or_promoted hroot hmanifest sampleText).1
  rw [entries_sampleText.1] at hentries
  refine ⟨hroot, hmanifest, ?_, ?_⟩
  · obtain ⟨-, -, -, hwarnings⟩ := hentries (⟨"/app/lib.rs"⟩, [sampleWarning]) (by simp)
    obtain ⟨-, ⟨record, report, primary, hreported, hinTree | hpromoted⟩, -⟩ :=
      hwarnings sampleWarning (by simp)
    · exact ⟨record, report, primary, hreported, hinTree⟩
    · cases hpromoted.severity
  · obtain ⟨-, -, -, herrors⟩ :=
      hentries (⟨"/app/Cargo.toml"⟩, [sampleError "/app/Cargo.toml"]) (by simp)
    obtain ⟨-, ⟨record, report, primary, hreported, hinTree | hpromoted⟩, -⟩ :=
      herrors (sampleError "/app/Cargo.toml") (by simp)
    · exact absurd hinTree.holds (by decide)
    · exact ⟨record, report, primary, hreported, hpromoted⟩

/-- The key of a diagnostic on an existing file is not always a path at which something exists. -/
theorem not_forall_key_of_in_tree_exists :
    ¬ ∀ (files : ProjectFiles) (name text : String),
      files.project.root.isAbsolute = true →
      (Path.mk files.manifest).components = [.name name] →
      ∀ entry ∈ (ofText files text).diagnostics.entries, ∀ diagnostic ∈ entry.2,
        ∃ record report primary, Message.ReportedIn text record report primary ∧
          ((files.InTree entry.1 report primary diagnostic ∧ files.holds entry.1 = true) ∨
            files.Promoted entry.1 record report primary diagnostic) := by
  intro hplaced
  have hentry := hplaced (sampleFiles "/work//app" "/work/app/Cargo.toml") "Cargo.toml"
    sampleText (by decide) (by decide)
  rw [entries_sampleText.2] at hentry
  obtain ⟨_, _, _, -, ⟨-, hholds⟩ | hpromoted⟩ :=
    hentry _ (List.mem_singleton_self _) manifestWarning (by simp)
  · exact absurd hholds (by decide)
  · cases hpromoted.severity

end StreamReport
end TargetLint
