import TargetLint.Consult
import TargetLint.Project

/-!
# Finding the project of a path

The project of a path has its root at the nearest ancestor that holds a manifest.
Projects that were found are remembered, so a later path in one of them needs no
look at the file system; so are strays, the paths that belong to no project.
-/

namespace TargetLint

/-- No manifest is in the path or any of its ancestors. -/
structure NoManifest where
  path : Path
  manifest : String
deriving DecidableEq, Repr, Inhabited

/-- The text of the error. -/
def NoManifest.message (error : NoManifest) : String :=
  s!"no {error.manifest} found for {error.path.text}"

/-- What is remembered of earlier searches: projects as they were found, and paths without one. -/
structure SearchMemory where
  projects : List Project
  strays : List Path
deriving DecidableEq, Repr, Inhabited

namespace SearchMemory

/-- Nothing is remembered. -/
def empty : SearchMemory :=
  ⟨[], []⟩

/-- The number of components of a project's root. -/
def depth (project : Project) : Nat :=
  project.root.components.length

/-- The deepest of several projects, the later one of two that are equally deep. -/
def deepest? (projects : List Project) : Option Project :=
  projects.foldl
    (fun best project =>
      match best with
      | some other => if depth other ≤ depth project then some project else best
      | none => some project)
    none

/-- The deepest remembered project that covers the path. -/
def enclosing? (memory : SearchMemory) (path : Path) : Option Project :=
  deepest? (memory.projects.filter fun project => project.covers path)

/-- The path is remembered to belong to no project. -/
def isStray (memory : SearchMemory) (path : Path) : Bool :=
  memory.strays.any fun stray => stray.Same path

/-- Remember a project, unless it is remembered already. -/
def addProject (memory : SearchMemory) (project : Project) : SearchMemory :=
  if memory.projects.any fun other => other.root.Same project.root then
    memory
  else
    { memory with projects := memory.projects ++ [project] }

/-- Remember that a path belongs to no project, unless that is remembered already. -/
def addStray (memory : SearchMemory) (path : Path) : SearchMemory :=
  if memory.isStray path then memory else { memory with strays := memory.strays ++ [path] }

end SearchMemory

namespace ProjectSearch

/-- The directory holds the manifest. -/
def holdsManifest (manifest : String) (directory : Path) : Consult Bool :=
  .question (.fileExists (directory.join ⟨manifest⟩))

/-- The directories that may be the root for a path, nearest first. -/
def candidates (isDirectory : Bool) (path : Path) : List Path :=
  (if isDirectory then path.ancestors else path.ancestors.drop 1).takeWhile (·.text ≠ "")

/-- The project found by going up from the path, from the path itself if it is a directory. -/
def ascend (manifest : String) (path : Path) : Consult (Option Project) := do
  let isDirectory ← .question (.isDirectory path)
  let directory ← Consult.first? (holdsManifest manifest) (candidates isDirectory path)
  return directory.map .mk

/-- What is remembered after going up from a path that memory does not settle. -/
def settle (memory : SearchMemory) (path : Path) : Option Project → SearchMemory
  | some project => memory.addProject project
  | none => memory.addStray path

/-- The project of a path, from memory where possible, and what is remembered afterwards. -/
def locate
    (manifest : String)
    (memory : SearchMemory)
    (path : Path) :
    Consult (Except NoManifest Project × SearchMemory) :=
  match memory.enclosing? path with
  | some project => return (.ok project, memory)
  | none =>
      if memory.isStray path then
        return (.error ⟨path, manifest⟩, memory)
      else do
        let found ← ascend manifest path
        return (found.elim (.error ⟨path, manifest⟩) .ok, settle memory path found)

end ProjectSearch
end TargetLint
