import TargetLint.Proofs.Path.Collapsed
import TargetLint.Proofs.StreamReport.Conversion

/-!
# What the spelling of a root does to reports

The file that a report names is looked for under its collapsed path, and it counts as
one of the project if that path starts with the root as it is spelled.  For a root
that has no `..` in it, every file below it is found.  A root that has one covers no
collapsed path at all: every warning is lost, and every error moves to the manifest.
-/

namespace TargetLint
namespace Project

variable {project : Project} {fileName : String}

/-- Below a root without `..`, a name leads to the very path that is the root joined with it. -/
theorem components_locationOf_of_plain
    (hroot : project.root.isAbsolute = true)
    (hplain : .up ∉ project.root.components)
    (hname : ∀ component ∈ (Path.mk fileName).components, component.IsName) :
    (project.locationOf fileName).components =
      project.root.components ++ (Path.mk fileName).components := by
  have hjoin : (project.root.join ⟨fileName⟩).components =
      project.root.components ++ (Path.mk fileName).components :=
    Path.components_join project.root (Path.lead_eq_none_of_isName hname)
  have hcomponents := Path.components_of_isAbsolute hroot
  rw [hcomponents] at hjoin hplain
  have hnames : ∀ component ∈ project.root.segments.filterMap Path.segmentComponent? ++
      (Path.mk fileName).components, component.IsName := by
    intro component hcomponent
    rcases List.mem_append.1 hcomponent with hbefore | hafter
    · rcases Path.up_or_isName_of_mem_pieces hbefore with rfl | hisName
      · exact absurd (List.mem_cons_of_mem _ hbefore) hplain
      · exact hisName
    · exact hname component hafter
  rw [locationOf, Path.components_collapse, hjoin, hcomponents, List.cons_append]
  exact (Path.IsCollapsed.standing .root hnames).collapseComponents_eq

/-- A root with `..` in it covers no path without dots. -/
theorem not_covers_locationOf_of_dotted
    (hroot : project.root.isAbsolute = true)
    (hdotted : .up ∈ project.root.components)
    (fileName : String) :
    project.covers (project.locationOf fileName) = false := by
  rw [← Bool.not_eq_true]
  intro hcovers
  obtain ⟨names, hcomponents, hnames⟩ :=
    Path.exists_components_collapse (Path.isAbsolute_join hroot ⟨fileName⟩)
  have hup : Path.Component.up ∈ (project.locationOf fileName).components :=
    (Path.startsWith_iff.1 hcovers).subset hdotted
  rw [locationOf, hcomponents] at hup
  rcases List.mem_cons.1 hup with hfirst | hlater
  · cases hfirst
  · obtain ⟨text, hname⟩ := hnames .up hlater
    cases hname

end Project

namespace Message

variable {files : ProjectFiles} {report : Report} {primary : Span}

/--
What becomes of a report on an existing file below an absolute root, by the spelling of the root.
Without `..` in the root, it becomes a diagnostic with the region of the span on the path that is
the root joined with the file name.  With `..` in the root, an error moves to the manifest, and
everything else is lost.
-/
theorem diagnostic?_by_spelling_of_root
    (origin : String)
    (hroot : files.project.root.isAbsolute = true)
    (hname : ∀ component ∈ (Path.mk primary.fileName).components, component.IsName)
    (hholds : files.holds (files.project.locationOf primary.fileName) = true)
    (hprimary : report.primary? = some primary)
    (hremark : isClosingRemark report.message = false) :
    (.up ∉ files.project.root.components →
      report.diagnostic? files origin =
          some (report.onFile primary (files.project.locationOf primary.fileName)) ∧
        (files.project.locationOf primary.fileName).Same
          (files.project.root.join ⟨primary.fileName⟩)) ∧
    (.up ∈ files.project.root.components →
      report.diagnostic? files origin =
        if Severity.ofLevel report.level = .error then
          some (report.onManifest files origin primary)
        else
          none) := by
  have hdiagnostic := report.diagnostic?_eq files origin hremark hprimary
  constructor
  · intro hplain
    have hcomponents := Project.components_locationOf_of_plain hroot hplain hname
    have hcovers : files.project.covers (files.project.locationOf primary.fileName) = true := by
      rw [Project.covers, Path.startsWith_iff, hcomponents]
      exact List.prefix_append _ _
    have hnamed : files.named? primary.fileName =
        some (files.project.locationOf primary.fileName) :=
      ProjectFiles.named?_eq_some_iff.2 ⟨rfl, hcovers, hholds⟩
    rw [hdiagnostic, hnamed]
    refine ⟨rfl, hcomponents.trans ?_⟩
    exact (Path.components_join _ (Path.lead_eq_none_of_isName hname)).symm
  · intro hdotted
    have hnamed : files.named? primary.fileName = none := by
      rw [ProjectFiles.named?, Project.place?_eq,
        Project.not_covers_locationOf_of_dotted hroot hdotted]
      rfl
    rw [hdiagnostic, hnamed]

/-- A project whose root is spelled with a detour, and which has one file. -/
def detourFiles : ProjectFiles :=
  { project := ⟨⟨"/work/x/../app"⟩⟩
    manifest := "Cargo.toml"
    holds := fun path => path.text ∈ ["/work/x/../app/src/lib.rs", "/work/app/src/lib.rs"] }

def detourSpan : Span :=
  { fileName := "src/lib.rs", lineStart := 4, lineEnd := 4, columnStart := 9, columnEnd := 14,
    isPrimary := true, label := none, text := [] }

/-- A warning about that file. -/
def detourWarning : Report :=
  { message := "unused variable", level := "warning", code := none, spans := [detourSpan],
    children := [] }

theorem isName_of_detourSpan :
    ∀ component ∈ (Path.mk detourSpan.fileName).components, component.IsName := by
  have hcomponents : (Path.mk detourSpan.fileName).components = [.name "src", .name "lib.rs"] := by
    decide
  rw [hcomponents]
  intro component hcomponent
  simp only [List.mem_cons, List.not_mem_nil, or_false] at hcomponent
  rcases hcomponent with rfl | rfl
  · exact ⟨"src", rfl⟩
  · exact ⟨"lib.rs", rfl⟩

/-- The warning is lost, by the general law for roots with `..`. -/
theorem detour_warning_by_spelling_of_root :
    detourFiles.project.root.isAbsolute = true ∧
      detourFiles.holds (detourFiles.project.locationOf detourSpan.fileName) = true ∧
      detourWarning.diagnostic? detourFiles "app" = none := by
  refine ⟨by decide, by decide, ?_⟩
  exact (diagnostic?_by_spelling_of_root "app" (by decide) isName_of_detourSpan (by decide)
    (by decide) (by decide)).2 (by decide)

/-- A report on an existing file of the project does not always become a diagnostic on it. -/
theorem not_forall_report_kept_on_its_file :
    ¬ ∀ (files : ProjectFiles) (origin : String) (report : Report) (primary : Span),
      files.project.root.isAbsolute = true →
      (∀ component ∈ (Path.mk primary.fileName).components, component.IsName) →
      files.holds (files.project.root.join ⟨primary.fileName⟩) = true →
      files.holds (files.project.root.join ⟨primary.fileName⟩).collapse = true →
      report.primary? = some primary →
      isClosingRemark report.message = false →
      ∃ diagnostic, report.diagnostic? files origin = some diagnostic ∧
        diagnostic.region = primary.region ∧
        diagnostic.path.collapse.Same (files.project.root.join ⟨primary.fileName⟩).collapse := by
  intro hkept
  obtain ⟨diagnostic, hdiagnostic, -⟩ := hkept detourFiles "app" detourWarning detourSpan
    (by decide) isName_of_detourSpan (by decide) (by decide) (by decide) (by decide)
  have hnone : detourWarning.diagnostic? detourFiles "app" = none := by decide
  rw [hnone] at hdiagnostic
  cases hdiagnostic

end Message
end TargetLint
