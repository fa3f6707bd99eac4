import TargetLint.StreamReport

/-!
# From a report to its diagnostic

A report is dropped if it is a closing remark or has no primary span.  What becomes of
any other one is decided by the file that its primary span names: a diagnostic on that
file, or an error on the manifest, or nothing.
-/

namespace TargetLint

/-- The path that a file name denotes when it is seen from the root, with its dots worked off. -/
def Project.locationOf (project : Project) (fileName : String) : Path :=
  (project.root.join ⟨fileName⟩).collapse

theorem Project.place?_eq
    (project : Project)
    (fileName : String) :
    project.place? fileName =
      if project.covers (project.locationOf fileName) then
        some (project.locationOf fileName)
      else
        none :=
  rfl

theorem ProjectFiles.named?_eq_some_iff
    {files : ProjectFiles}
    {fileName : String}
    {path : Path} :
    files.named? fileName = some path ↔
      path = files.project.locationOf fileName ∧ files.project.covers path = true ∧
        files.holds path = true := by
  rw [named?, Option.filter_eq_some_iff, Project.place?_eq, Option.ite_none_right_eq_some]
  constructor
  · rintro ⟨⟨hcovers, hpath⟩, hholds⟩
    obtain rfl := Option.some.inj hpath
    exact ⟨rfl, hcovers, hholds⟩
  · rintro ⟨rfl, hcovers, hholds⟩
    exact ⟨⟨hcovers, rfl⟩, hholds⟩

namespace Message

variable {files : ProjectFiles} {origin : String} {report : Report} {primary : Span}
  {diagnostic : Diagnostic}

/-- The diagnostic of a report on a file of the project. -/
def Report.onFile (report : Report) (primary : Span) (path : Path) : Diagnostic :=
  ⟨path, primary.region, .ofLevel report.level, report.text primary, report.code⟩

/-- The diagnostic of a report on the manifest, as an error that lies elsewhere. -/
def Report.onManifest
    (report : Report)
    (files : ProjectFiles)
    (origin : String)
    (primary : Span) :
    Diagnostic :=
  ⟨files.manifestFile, .origin, .error, primary.outsideText origin (report.text primary),
    report.code⟩

/-- What a report becomes is decided by the file that its primary span names. -/
theorem Report.diagnostic?_eq
    (files : ProjectFiles)
    (origin : String)
    (hremark : isClosingRemark report.message = false)
    (hprimary : report.primary? = some primary) :
    report.diagnostic? files origin =
      match files.named? primary.fileName with
      | some path => some (report.onFile primary path)
      | none =>
          if Severity.ofLevel report.level = .error then
            some (report.onManifest files origin primary)
          else
            none := by
  have hplaced : report.diagnostic? files origin =
      match files.named? primary.fileName with
      | some path => some (report.onFile primary path)
      | none => Option.bind (guard (Severity.ofLevel report.level = Severity.error)) fun _ =>
          some (report.onManifest files origin primary) := by
    unfold Report.diagnostic?
    rw [hremark, hprimary]
    rfl
  rw [hplaced]
  cases files.named? primary.fileName with
  | some path => rfl
  | none =>
      cases Severity.ofLevel report.level with
      | error => rfl
      | warning => rfl
      | unknown => rfl

theorem Report.primary?_of_diagnostic?
    (h : report.diagnostic? files origin = some diagnostic) :
    isClosingRemark report.message = false ∧ ∃ primary, report.primary? = some primary := by
  unfold Report.diagnostic? at h
  obtain ⟨_, hguard, hrest⟩ := Option.bind_eq_some_iff.1 h
  obtain ⟨primary, hprimary, -⟩ := Option.bind_eq_some_iff.1 hrest
  refine ⟨?_, primary, hprimary⟩
  cases hremark : isClosingRemark report.message with
  | false => rfl
  | true =>
      rw [hremark] at hguard
      cases hguard

/-- No report on a file of the project and no error is dropped, closing remarks apart. -/
theorem Report.exists_diagnostic?
    (files : ProjectFiles)
    (origin : String)
    (hremark : isClosingRemark report.message = false)
    (hprimary : report.primary? = some primary)
    (hkept : files.named? primary.fileName ≠ none ∨ Severity.ofLevel report.level = .error) :
    ∃ diagnostic, report.diagnostic? files origin = some diagnostic := by
  rw [report.diagnostic?_eq files origin hremark hprimary]
  cases hnamed : files.named? primary.fileName with
  | some path => exact ⟨_, rfl⟩
  | none =>
      rcases hkept with hinside | hlevel
      · exact absurd hnamed hinside
      · exact ⟨_, if_pos hlevel⟩

/-- A report becomes a diagnostic on the file that it names, or one on the manifest. -/
theorem Report.diagnostic?_cases
    (h : report.diagnostic? files origin = some diagnostic)
    (hprimary : report.primary? = some primary) :
    (∃ path, files.named? primary.fileName = some path ∧
        diagnostic = report.onFile primary path) ∨
      (files.named? primary.fileName = none ∧ Severity.ofLevel report.level = .error ∧
        diagnostic = report.onManifest files origin primary) := by
  rw [report.diagnostic?_eq files origin (primary?_of_diagnostic? h).1 hprimary] at h
  cases hnamed : files.named? primary.fileName with
  | some path =>
      rw [hnamed] at h
      exact Or.inl ⟨path, rfl, (Option.some.inj h).symm⟩
  | none =>
      rw [hnamed] at h
      obtain ⟨herror, hmanifest⟩ := Option.ite_none_right_eq_some.1 h
      exact Or.inr ⟨rfl, herror, (Option.some.inj hmanifest).symm⟩

end Message
end TargetLint
