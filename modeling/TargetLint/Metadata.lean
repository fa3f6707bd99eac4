import TargetLint.Command
import TargetLint.Json.Reader
import TargetLint.Json.Record
import TargetLint.Project
import TargetLint.Text.Blank

/-!
# Project metadata

The build tool lists its packages and their targets as one JSON document.  The
package of a project is the one with the project's manifest, or the only one there
is, whatever its manifest is called, because a checkout may be reached by links.
-/

namespace TargetLint
namespace Metadata

/-- A target as it is listed, one for each of its kind tags. -/
structure Descriptor where
  name : String
  kind : String
  entry : Path
deriving DecidableEq, Repr, Inhabited

/-- A target of a package with all its kind tags. -/
structure BuildUnit where
  name : String
  kinds : List String
  entry : Path
deriving DecidableEq, Repr, Inhabited

/-- A package with its targets. -/
structure Package where
  manifest : Path
  targets : List BuildUnit
deriving DecidableEq, Repr, Inhabited

/-- The packages of a document. -/
structure Document where
  packages : List Package
deriving DecidableEq, Repr, Inhabited

/-- Why the targets of a project cannot be told. -/
inductive Failure where
  | notRun (error : StartError)
  | exited (status : Option Int) (stderr : String)
  | undecodable
  | noPackage (manifest : Path)
deriving DecidableEq, Repr, Inhabited

/-- An exit code as it is shown. -/
def displayStatus : Option Int → String
  | some code => s!"Some({code})"
  | none => "None"

/-- The text of a failure. -/
def Failure.message : Failure → String
  | notRun error => error.message
  | exited status stderr => s!"cargo metadata exited with {displayStatus status}: {stderr}"
  | undecodable => "invalid cargo metadata"
  | noPackage manifest => s!"no package with manifest {manifest.text}"

/-- A path. -/
def path? : Json.Decoder Path := fun json =>
  (Json.text? json).map Path.mk

/-- A target record. -/
def BuildUnit.ofJson? : Json.Decoder BuildUnit := fun json => do
  let record ← json.record? ["name", "kind", "src_path"]
  return {
    name := ← record.required? "name" Json.text?
    kinds := ← record.required? "kind" (Json.listOf? Json.text?)
    entry := ← record.required? "src_path" path? }

/-- A package record. -/
def Package.ofJson? : Json.Decoder Package := fun json => do
  let record ← json.record? ["manifest_path", "targets"]
  return {
    manifest := ← record.required? "manifest_path" path?
    targets := ← record.required? "targets" (Json.listOf? BuildUnit.ofJson?) }

/-- A metadata document. -/
def Document.ofJson? : Json.Decoder Document := fun json => do
  let record ← json.record? ["packages"]
  return { packages := ← record.required? "packages" (Json.listOf? Package.ofJson?) }

/-- The package with the given manifest, or the only package. -/
def Document.package? (document : Document) (manifest : Path) : Option Package :=
  match document.packages with
  | [only] => some only
  | packages => packages.find? fun package => package.manifest.Same manifest

/-- One descriptor for each kind tag. -/
def BuildUnit.descriptors (item : BuildUnit) : List Descriptor :=
  item.kinds.map fun kind => ⟨item.name, kind, item.entry⟩

/-- The targets that a document lists for the project with the given manifest. -/
def Document.descriptors (document : Document) (manifest : Path) :
    Except Failure (List Descriptor) :=
  match document.package? manifest with
  | some package => .ok (package.targets.flatMap BuildUnit.descriptors)
  | none => .error (.noPackage manifest)

/-- The targets that a text lists for the project with the given manifest. -/
def decode (text : String) (manifest : Path) : Except Failure (List Descriptor) :=
  match (Json.read? text).bind Document.ofJson? with
  | some document => document.descriptors manifest
  | none => .error .undecodable

/-- The targets that the build tool's reply lists for a project. -/
def ofReply
    (manifest : String)
    (project : Project)
    (reply : RunReply) :
    Except Failure (List Descriptor) :=
  match reply with
  | .error error => .error (.notRun error)
  | .ok output =>
      if output.succeeded then
        decode output.stdout (project.manifestFile manifest)
      else
        .error (.exited output.status (Text.trim output.stderr))

end Metadata
end TargetLint
