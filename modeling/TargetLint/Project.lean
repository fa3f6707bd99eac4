import TargetLint.Path.Order

/-!
# Projects

A project is told by its root, the directory that holds its manifest.  What lies in
the project is decided component by component: the project at `/work/app` covers
`/work/app/src/lib.rs` and its root itself, but not `/work/app-cli/src/main.rs`.
-/

namespace TargetLint

/-- A project, told by the directory that holds its manifest. -/
structure Project where
  root : Path
deriving DecidableEq, Repr, Inhabited

namespace Project

/-- The path is the root or lies beneath it. -/
def covers (project : Project) (path : Path) : Bool :=
  path.startsWith project.root

/-- The file of the given name in the root. -/
def manifestFile (project : Project) (manifest : String) : Path :=
  project.root.join ⟨manifest⟩

/-- The path seen from the root, or the path itself where the project does not cover it. -/
def pathWithin (project : Project) (path : Path) : Path :=
  (project.root.dropBase? path).getD path

/-- The root's own name, or the whole root where it has none. -/
def name (project : Project) : String :=
  project.root.fileName?.getD project.root.text

end Project
end TargetLint
