import TargetLint.Metadata
import TargetLint.Target

/-!
# The targets of a project

The catalog keeps the listed targets of supported kinds, each once.  A file is
served by the target that starts at it, or else by the library or a binary of the
project, in an order that depends on the purpose.
-/

namespace TargetLint
namespace Catalog

/-- The target that a descriptor stands for; absent for kinds that are not supported. -/
def target? (project : Project) (descriptor : Metadata.Descriptor) : Option Target :=
  (TargetKind.ofTag? descriptor.kind).map fun kind =>
    ⟨descriptor.name, kind, descriptor.entry, project.root⟩

/-- The targets with one more at the end, unless it is there already. -/
def add (targets : List Target) (target : Target) : List Target :=
  if targets.any fun other => other.Same target then targets else targets ++ [target]

/-- The targets that descriptors stand for, each once, in the order of their first occurrence. -/
def ofDescriptors (project : Project) (descriptors : List Metadata.Descriptor) : List Target :=
  (descriptors.filterMap (target? project)).foldl add []

/-- The targets of a project; none where its metadata cannot be had. -/
def ofListing
    (project : Project)
    (listing : Except Metadata.Failure (List Metadata.Descriptor)) :
    List Target :=
  match listing with
  | .ok descriptors => ofDescriptors project descriptors
  | .error _ => []

end Catalog

/-- The target that serves a file and how many of its kind could have. -/
structure Choice where
  target : Target
  candidates : Nat
deriving DecidableEq, Repr, Inhabited

namespace Choice

/-- The target was the first of several. -/
def isFirstOfSeveral (choice : Choice) : Bool :=
  1 < choice.candidates

/-- The first target of a kind. -/
def ofKind? (targets : List Target) (kind : TargetKind) : Option Choice :=
  match targets.filter (·.kind = kind) with
  | [] => none
  | first :: others => some ⟨first, 1 + others.length⟩

/-- The kinds that serve any file of the project, best first. -/
def preference : Purpose → List TargetKind
  | .run => [.binary, .library]
  | .lint => [.library, .binary]

/-- The target that serves a file. -/
def forFile? (path : Path) (targets : List Target) (purpose : Purpose) : Option Choice :=
  match targets.find? fun target => target.entry.Same path with
  | some target => some ⟨target, 1⟩
  | none => (preference purpose).findSome? (ofKind? targets)

end Choice
end TargetLint
