import TargetLint.Path.Order

/-!
# Build targets

A target is a unit that the build tool can check by itself.  Every library crate
type counts as a library; units of other kinds than the four below are neither
linted nor run.
-/

namespace TargetLint

/-- The kinds of units that are linted and run. -/
inductive TargetKind where
  | library
  | binary
  | example
  | test
deriving DecidableEq, Repr, Inhabited

namespace TargetKind

/-- The tags under which metadata lists libraries. -/
def libraryTags : List String :=
  ["lib", "rlib", "dylib", "cdylib", "staticlib", "proc-macro"]

/-- The kind that a metadata tag stands for; absent for kinds that are not supported. -/
def ofTag? (tag : String) : Option TargetKind :=
  if tag ∈ libraryTags then
    some .library
  else if tag = "bin" then
    some .binary
  else if tag = "example" then
    some .example
  else if tag = "test" then
    some .test
  else
    none

/-- The word printed for a kind. -/
def label : TargetKind → String
  | library => "lib"
  | binary => "bin"
  | .example => "example"
  | test => "test"

end TargetKind

/-- What a target is selected for. -/
inductive Purpose where
  | run
  | lint
deriving DecidableEq, Repr

/-- A unit that the build tool can check by itself, with the file it starts at and its project. -/
structure Target where
  name : String
  kind : TargetKind
  entry : Path
  root : Path
deriving DecidableEq, Repr, Inhabited

namespace Target

/-- Two targets are the same when names and kinds are equal and the paths are the same. -/
def Same (a b : Target) : Prop :=
  a.name = b.name ∧ a.kind = b.kind ∧ a.entry.Same b.entry ∧ a.root.Same b.root

instance (a b : Target) : Decidable (a.Same b) :=
  inferInstanceAs (Decidable (_ ∧ _ ∧ _ ∧ _))

/-- The target is a library. -/
def isLibrary (target : Target) : Bool :=
  target.kind = .library

/-- The build tool's arguments that select exactly this target. -/
def selector (target : Target) : List String :=
  match target.kind with
  | .library => ["--lib"]
  | .binary => ["--bin", target.name]
  | .example => ["--example", target.name]
  | .test => ["--test", target.name]

/-- Kind and name. -/
def display (target : Target) : String :=
  s!"{target.kind.label} `{target.name}`"

end Target
end TargetLint
