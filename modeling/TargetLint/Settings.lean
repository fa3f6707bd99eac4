import TargetLint.Datum
import TargetLint.Text.Blank

/-!
# Settings

The settings of a session: whether saving a file starts a lint, the program of the
build tool, the name of the file that marks a project root, and further arguments of
every lint.  They are read from a table, or from a list with the fields in their
order, and checked: settings carry the proof that the program and the manifest name
are not blank and that the manifest name has no separators.
-/

namespace TargetLint

/-- The name has no separator in it. -/
def IsBareName (name : String) : Prop :=
  ∀ c ∈ name.toList, c ≠ '/' ∧ c ≠ '\\'

instance (name : String) : Decidable (IsBareName name) :=
  decidable_of_iff (name.toList.all fun c => c ≠ '/' && c ≠ '\\') (by simp [IsBareName])

/-- The settings of a session. -/
structure Settings where
  lintOnSave : Bool
  program : String
  manifest : String
  extraArguments : List String
  program_not_blank : ¬ Text.IsBlank program
  manifest_not_blank : ¬ Text.IsBlank manifest
  manifest_bare : IsBareName manifest
deriving DecidableEq, Repr

/-- Why settings are not valid. -/
inductive InvalidSettings where
  | blankProgram
  | blankManifest
  | manifestWithSeparator (manifest : String)
deriving DecidableEq, Repr, Inhabited

/-- The text of an error. -/
def InvalidSettings.message : InvalidSettings → String
  | blankProgram => "cargo command must not be empty"
  | blankManifest => "manifest name must not be empty"
  | manifestWithSeparator manifest =>
      s!"manifest name must be a bare file name, got `{manifest}`"

/-- Why data are not read as settings. -/
inductive SettingsDecodeError where
  | unknownField (name : String) (fields : List String)
  | wrongType
  | invalid (error : InvalidSettings)
deriving DecidableEq, Repr, Inhabited

/-- Names in quotes, as a reader is told what was expected. -/
def expectedText (names : List String) : String :=
  let quoted := names.map fun name => s!"`{name}`"
  match quoted with
  | [sole] => sole
  | [first, second] => s!"{first} or {second}"
  | _ => "one of " ++ ", ".intercalate quoted

/-- The text of an error, where it has one of its own. -/
def SettingsDecodeError.message? : SettingsDecodeError → Option String
  | unknownField name fields => some s!"unknown field `{name}`, expected {expectedText fields}"
  | wrongType => none
  | invalid error => some error.message

namespace Settings

/-- The settings where nothing else is said. -/
def default : Settings :=
  { lintOnSave := true
    program := "cargo"
    manifest := "Cargo.toml"
    extraArguments := []
    program_not_blank := by decide
    manifest_not_blank := by decide
    manifest_bare := by decide }

instance : Inhabited Settings :=
  ⟨default⟩

/-- The fields as they were given. -/
structure Fields where
  lintOnSave : Option Bool
  program : Option String
  manifest : Option String
  extraArguments : List String
deriving DecidableEq, Repr

/-- No field was given. -/
def Fields.empty : Fields :=
  ⟨none, none, none, []⟩

/-- The names of the fields in their order. -/
def fieldNames : List String :=
  ["on_save", "cargo", "manifest", "extra_args"]

/-- An absent value or a truth value. -/
def flag? : Datum → Except SettingsDecodeError (Option Bool)
  | .null => .ok none
  | .flag value => .ok (some value)
  | _ => .error .wrongType

/-- An absent value or a text. -/
def text? : Datum → Except SettingsDecodeError (Option String)
  | .null => .ok none
  | .text value => .ok (some value)
  | _ => .error .wrongType

/-- A list of texts. -/
def texts? : Datum → Except SettingsDecodeError (List String)
  | .list items =>
      items.mapM fun
        | .text value => .ok value
        | _ => .error .wrongType
  | _ => .error .wrongType

/-- The fields after one more member of a table. -/
def Fields.add
    (fields : Fields)
    (member : String × Datum) :
    Except SettingsDecodeError Fields :=
  match member.1 with
  | "on_save" => return { fields with lintOnSave := ← flag? member.2 }
  | "cargo" => return { fields with program := ← text? member.2 }
  | "manifest" => return { fields with manifest := ← text? member.2 }
  | "extra_args" => return { fields with extraArguments := ← texts? member.2 }
  | name => .error (.unknownField name fieldNames)

/-- The fields given by the items of a list; only the last may be missing. -/
def Fields.ofItems : List Datum → Except SettingsDecodeError Fields
  | lintOnSave :: program :: manifest :: rest => do
      return {
        lintOnSave := ← flag? lintOnSave
        program := ← text? program
        manifest := ← text? manifest
        extraArguments := ← (rest.head?.map texts?).getD (.ok []) }
  | _ => .error .wrongType

/-- The fields that data give.  A list with more items than fields is read if `lenient`. -/
def Fields.ofDatum (lenient : Bool) : Datum → Except SettingsDecodeError Fields
  | .table members => members.foldlM add empty
  | .list items => do
      let fields ← ofItems items
      if lenient || items.length ≤ fieldNames.length then .ok fields else .error .wrongType
  | _ => .error .wrongType

/-- Fill in what was not given and check the result; the program is checked first. -/
def Fields.check (fields : Fields) : Except InvalidSettings Settings :=
  let program := fields.program.getD default.program
  let manifest := fields.manifest.getD default.manifest
  if hprogram : Text.IsBlank program then
    .error .blankProgram
  else if hmanifest : Text.IsBlank manifest then
    .error .blankManifest
  else if hbare : IsBareName manifest then
    .ok {
      lintOnSave := fields.lintOnSave.getD default.lintOnSave
      program := program
      manifest := manifest
      extraArguments := fields.extraArguments
      program_not_blank := hprogram
      manifest_not_blank := hmanifest
      manifest_bare := hbare }
  else
    .error (.manifestWithSeparator manifest)

/-- The settings that data give. -/
def ofDatum (lenient : Bool) (datum : Datum) : Except SettingsDecodeError Settings := do
  match (← Fields.ofDatum lenient datum).check with
  | .ok settings => .ok settings
  | .error error => .error (.invalid error)

/-- The settings with linting on save switched on or off. -/
def setLintOnSave (settings : Settings) (enabled : Bool) : Settings :=
  { settings with lintOnSave := enabled }

/-- The settings with another program, which must not be blank. -/
def setProgram (settings : Settings) (program : String) : Except InvalidSettings Settings :=
  if h : Text.IsBlank program then
    .error .blankProgram
  else
    .ok { settings with program := program, program_not_blank := h }

/-- The settings with other further arguments. -/
def setExtraArguments (settings : Settings) (arguments : List String) : Settings :=
  { settings with extraArguments := arguments }

end Settings
end TargetLint
