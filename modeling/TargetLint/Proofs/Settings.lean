import TargetLint.Config
import TargetLint.Project
import TargetLint.Proofs.Path.FileName

/-!
# Settings as they come about

Settings are the default, are read from data, or are changed from other settings.  They
carry the proof that the program and the name of the manifest are not blank and that the
name has no separators, and all values of which this is true do come about.  The name is
a file name by which a project's manifest lies in the project's root, but for two names
without separators that are none: `.` and `..` pass the check.
-/

namespace TargetLint

namespace Settings

/-- The settings come about from the default or from data, by any changes that succeed. -/
inductive Obtained : Settings → Prop where
  | default : Obtained .default
  | decoded
      {lenient : Bool}
      {datum : Datum}
      {settings : Settings}
      (h : ofDatum lenient datum = .ok settings) :
      Obtained settings
  | setLintOnSave
      {settings : Settings}
      (before : Obtained settings)
      (enabled : Bool) :
      Obtained (settings.setLintOnSave enabled)
  | setProgram
      {settings next : Settings}
      {program : String}
      (before : Obtained settings)
      (h : settings.setProgram program = .ok next) :
      Obtained next
  | setExtraArguments
      {settings : Settings}
      (before : Obtained settings)
      (arguments : List String) :
      Obtained (settings.setExtraArguments arguments)
  | substituted
      {settings next : Settings}
      {environment : String → Option String}
      (before : Obtained settings)
      (h : Config.substitute environment settings = .ok next) :
      Obtained next
  | loaded
      {given : Option Path}
      {host : Host}
      {settings : Settings}
      (h : (Config.settings given).value host = .ok settings) :
      Obtained settings

/-- A manifest is named by a path that is not absolute. -/
theorem isAbsolute_manifest (settings : Settings) :
    (Path.mk settings.manifest).isAbsolute = false := by
  rw [Path.isAbsolute, decide_eq_false_iff_not]
  intro hhead
  exact (settings.manifest_bare '/' (List.mem_of_mem_head? hhead)).1 rfl

/-- A manifest name other than `.` and `..` is a single name. -/
theorem components_manifest
    (settings : Settings)
    (hhere : settings.manifest ≠ ".")
    (hup : settings.manifest ≠ "..") :
    (Path.mk settings.manifest).components = [.name settings.manifest] := by
  have hsep : '/' ∉ settings.manifest.toList :=
    fun hmem => (settings.manifest_bare '/' hmem).1 rfl
  have hne : settings.manifest ≠ "" := by
    intro hempty
    have hblank := settings.manifest_not_blank
    rw [hempty] at hblank
    exact hblank (by decide)
  exact Path.components_of_not_mem hsep hne hhere hup

/-- The data that give the settings field by field. -/
def datum (settings : Settings) : Datum :=
  .table [("on_save", .flag settings.lintOnSave), ("cargo", .text settings.program),
    ("manifest", .text settings.manifest),
    ("extra_args", .list (settings.extraArguments.map .text))]

theorem texts?_map_text (texts : List String) : texts? (.list (texts.map .text)) = .ok texts := by
  rw [texts?]
  induction texts with
  | nil => rfl
  | cons text rest ih =>
      rw [List.map_cons, List.mapM_cons, ih]
      rfl

/-- Settings are read from the data that give them. -/
theorem ofDatum_datum (settings : Settings) : ofDatum false settings.datum = .ok settings := by
  let fields : Fields :=
    ⟨some settings.lintOnSave, some settings.program, some settings.manifest,
      settings.extraArguments⟩
  have hfields : Fields.ofDatum false settings.datum = .ok fields := by
    simp [Fields.ofDatum, datum, Fields.add, flag?, text?, texts?_map_text, bind, Except.bind]
    rfl
  have hcheck : fields.check = .ok settings := by
    simp [Fields.check, fields, settings.program_not_blank, settings.manifest_not_blank,
      settings.manifest_bare]
  simp [ofDatum, hfields, hcheck, bind, Except.bind]

theorem obtained (settings : Settings) : settings.Obtained :=
  .decoded settings.ofDatum_datum

/-- Values are those of settings that come about if they pass the check. -/
theorem exists_obtained_iff
    (lintOnSave : Bool)
    (program manifest : String)
    (extraArguments : List String) :
    (∃ settings : Settings, settings.Obtained ∧ settings.lintOnSave = lintOnSave ∧
        settings.program = program ∧ settings.manifest = manifest ∧
        settings.extraArguments = extraArguments) ↔
      ¬ Text.IsBlank program ∧ ¬ Text.IsBlank manifest ∧ IsBareName manifest := by
  constructor
  · rintro ⟨settings, -, -, rfl, rfl, -⟩
    exact ⟨settings.program_not_blank, settings.manifest_not_blank, settings.manifest_bare⟩
  · rintro ⟨hprogram, hmanifest, hbare⟩
    exact ⟨⟨lintOnSave, program, manifest, extraArguments, hprogram, hmanifest, hbare⟩,
      obtained _, rfl, rfl, rfl, rfl⟩

end Settings

namespace Project

/-- A manifest name that is one name is the file name of a path right in the project's root. -/
theorem manifestFile_of_components
    {manifest : String}
    (h : (Path.mk manifest).components = [.name manifest])
    (project : Project) :
    (project.manifestFile manifest).fileName? = some manifest ∧
      ∃ parent, (project.manifestFile manifest).parent? = some parent ∧
        parent.Same project.root := by
  have hcomponents : (project.manifestFile manifest).components =
      project.root.components ++ [.name manifest] := by
    rw [manifestFile, Path.components_join _ (Path.lead_eq_none_of_components_eq_name h), h]
  exact ⟨Path.fileName?_of_components hcomponents, Path.exists_parent? hcomponents (by simp)⟩

end Project

namespace Settings

/--
All settings come about, and the values with which they do are those that are valid: a program and
a manifest name that are not blank, and no separator in the manifest name.  By its name, the
manifest of each project is the file of this name in the project's root, unless the name is `.` or
`..`.  Those two are valid too: by the one the manifest is the root itself, by the other the
directory over it.
-/
theorem obtained_settings_are_valid
    (lintOnSave : Bool)
    (program manifest : String)
    (extraArguments : List String) :
    ((∃ settings : Settings, settings.Obtained ∧ settings.lintOnSave = lintOnSave ∧
          settings.program = program ∧ settings.manifest = manifest ∧
          settings.extraArguments = extraArguments) ↔
        ¬ Text.IsBlank program ∧ ¬ Text.IsBlank manifest ∧ IsBareName manifest) ∧
    ∀ settings : Settings, settings.manifest = manifest →
      settings.Obtained ∧
      (manifest ≠ "." → manifest ≠ ".." →
        (Path.mk manifest).components = [.name manifest] ∧
        ∀ project : Project,
          (project.manifestFile manifest).fileName? = some manifest ∧
          ∃ parent, (project.manifestFile manifest).parent? = some parent ∧
            parent.Same project.root) ∧
      (manifest = "." → ∀ project : Project, project.root.text ≠ "" →
        (project.manifestFile manifest).Same project.root) ∧
      (manifest = ".." → ∀ project : Project,
        (project.manifestFile manifest).components = project.root.components ++ [.up]) := by
  refine ⟨exists_obtained_iff lintOnSave program manifest extraArguments, ?_⟩
  rintro settings rfl
  refine ⟨obtained settings, ?_, ?_, ?_⟩
  · intro hhere hup
    have hname := settings.components_manifest hhere hup
    exact ⟨hname, Project.manifestFile_of_components hname⟩
  · intro hhere project hroot
    rw [hhere]
    exact Path.same_join_here hroot
  · intro hup project
    rw [hup]
    exact Path.components_join project.root rfl

/-- The default settings come about, and each project has its manifest in its root by them. -/
theorem default_settings_are_valid :
    Settings.default.Obtained ∧
      (Project.manifestFile ⟨⟨"/work/app"⟩⟩ Settings.default.manifest).fileName? =
        some "Cargo.toml" := by
  obtain ⟨hobtained, hname, -⟩ :=
    (obtained_settings_are_valid true "cargo" "Cargo.toml" []).2 .default rfl
  obtain ⟨-, hfile⟩ := hname (by decide) (by decide)
  exact ⟨hobtained, (hfile ⟨⟨"/work/app"⟩⟩).1⟩

/-- The default settings with the manifest named by the directory over a root. -/
def parentManifest : Settings :=
  { Settings.default with
    manifest := ".."
    manifest_not_blank := by decide
    manifest_bare := by decide }

/-- The check lets a manifest name pass that leads out of the root of every project. -/
theorem not_forall_obtained_manifest_is_name :
    ¬ ∀ settings : Settings, settings.Obtained →
      (Path.mk settings.manifest).components = [.name settings.manifest] := by
  intro hname
  have hcomponents := hname parentManifest (obtained _)
  revert hcomponents
  decide

end Settings
end TargetLint
