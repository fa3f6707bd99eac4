import TargetLint.Consult
import TargetLint.Settings
import TargetLint.Text.Template
import TargetLint.Toml.Reader

/-!
# Configuration

The settings may be kept in a file with a single table of them.  References to
environment variables in the program and in the further arguments are replaced after
the file has been read and checked, and the program is then checked again.
-/

namespace TargetLint

/-- Why a configuration text gives no settings. -/
inductive ConfigTextError where
  | malformed
  | settings (error : SettingsDecodeError)
deriving DecidableEq, Repr, Inhabited

/-- The text of an error, where it has one of its own. -/
def ConfigTextError.message? : ConfigTextError → Option String
  | malformed => none
  | settings error => error.message?

/-- Why a configuration file gives no settings. -/
inductive ConfigFailure where
  | unreadable
  | rejected (error : ConfigTextError)
  | invalid (error : InvalidSettings)
deriving DecidableEq, Repr, Inhabited

/-- A failure with the file that it is about. -/
structure ConfigError where
  path : Path
  failure : ConfigFailure
deriving DecidableEq, Repr, Inhabited

/-- The text of an error. -/
def ConfigError.message (error : ConfigError) : String :=
  let path := error.path.text
  match error.failure with
  | .unreadable => s!"failed to read config at {path}"
  | .rejected cause =>
      let reason := cause.message?.getD "malformed text"
      s!"failed to parse config at {path}: {reason}"
  | .invalid cause => s!"invalid settings in {path}: {cause.message}"

namespace Config

/-- The name of the table of settings. -/
def tableName : String :=
  "lint"

/-- The settings that a configuration table gives. -/
def ofMembers (members : List (String × Datum)) : Except SettingsDecodeError Settings :=
  members.foldlM
    (fun _ member =>
      if member.1 = tableName then
        Settings.ofDatum true member.2
      else
        .error (.unknownField member.1 [tableName]))
    Settings.default

/-- The settings that a configuration text gives; references are left as they are. -/
def ofText (text : String) : Except ConfigTextError Settings :=
  match Toml.read? text with
  | some (.table members) => (ofMembers members).mapError .settings
  | _ => .error .malformed

/-- The names that the settings refer to. -/
def references (settings : Settings) : List String :=
  (settings.program :: settings.extraArguments).flatMap Text.references

/-- The settings with the references in the program and the further arguments replaced. -/
def substitute
    (environment : String → Option String)
    (settings : Settings) :
    Except InvalidSettings Settings :=
  let arguments := settings.extraArguments.map (Text.expand environment)
  (settings.setExtraArguments arguments).setProgram (Text.expand environment settings.program)

/-- The variable that names a configuration file. -/
def fileVariable : String :=
  "COGS_CONFIG"

/-- The place of the configuration file in a home directory. -/
def fileInHome (home : Path) : Path :=
  (home.join ⟨".cogs"⟩).join ⟨"config.toml"⟩

/-- The configuration file: the one that is given, if it has a name, or else the one at home. -/
def file? (given : Option String) (home : Option Path) : Option Path :=
  ((given.filter (· ≠ "")).map Path.mk).or (home.map fileInHome)

/-- The values of variables, as far as they have one. -/
def valuesOf : List String → Consult (List (String × String))
  | [] => return []
  | name :: rest => do
      let value ← .question (.variable name)
      let others ← valuesOf rest
      return (value.map fun text => (name, text)).toList ++ others

/-- The settings of a text with its references replaced. -/
def substituted (text : String) : Consult (Except ConfigFailure Settings) :=
  match ofText text with
  | .error error => return .error (.rejected error)
  | .ok settings => do
      let values ← valuesOf (references settings)
      return (substitute (fun name => values.lookup name) settings).mapError .invalid

/-- The settings of a file; none where there is no such file. -/
def ofFile (path : Path) : Consult (Except ConfigError (Option Settings)) := do
  if !(← .question (.fileExists path)) then
    return .ok none
  else
    match ← .question (.readText path) with
    | none => return .error ⟨path, .unreadable⟩
    | some text =>
        let settings ← substituted text
        return (settings.mapError (ConfigError.mk path)).map some

/-- The settings of the configuration file; none where there is no such file. -/
def ofDefaultFile : Consult (Except ConfigError (Option Settings)) := do
  let given ← .question (.variable fileVariable)
  let home ← .question .homeDirectory
  match file? given home with
  | some path => ofFile path
  | none => return .ok none

/-- The settings of a given file or else of the configuration file; defaults where there is none. -/
def settings (given : Option Path) : Consult (Except ConfigError Settings) := do
  let found ← given.elim ofDefaultFile ofFile
  return found.map fun settings => settings.getD .default

end Config
end TargetLint
