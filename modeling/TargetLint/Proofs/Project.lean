import TargetLint.Proofs.Path.Spelling
import TargetLint.Proofs.ProjectSearch.Locate

/-!
# Paths seen from a root

A path in a project is told by the root and by the rest of the path behind it: put
together again they are the path, and paths that differ have rests that differ in their
texts.  Roots around one path lie one in the other.  So the deepest of them is unique,
and it is the one that is found in memory.
-/

namespace TargetLint

/-- A directory and what follows it in a path make up the path. -/
theorem Path.same_join_dropBase?
    {base path rest : Path}
    (h : base.dropBase? path = some rest) :
    (base.join rest).Same path := by
  rw [Same, components_dropBase? h]
  by_cases hbase : base.components = []
  · rw [join_of_empty (text_eq_empty_iff.2 hbase), hbase, List.nil_append]
  · exact components_join base (lead_dropBase? hbase h)

namespace Project

theorem same_join_pathWithin
    {project : Project}
    {path : Path}
    (h : project.covers path = true) :
    (project.root.join (project.pathWithin path)).Same path := by
  obtain ⟨rest, hrest⟩ := Path.exists_dropBase? h
  rw [pathWithin, hrest, Option.getD_some]
  exact Path.same_join_dropBase? hrest

theorem pathWithin_eq_self
    {project : Project}
    {path : Path}
    (h : project.covers path = false) :
    project.pathWithin path = path := by
  have hnone : project.root.dropBase? path = none :=
    if_neg (by rw [← covers, h]; exact Bool.false_ne_true)
  rw [pathWithin, hnone, Option.getD_none]

/-- Of two projects around a path, one has its root in the other. -/
theorem covers_root_or_covers_root
    {project other : Project}
    {path : Path}
    (h : project.covers path = true)
    (hother : other.covers path = true) :
    project.covers other.root = true ∨ other.covers project.root = true :=
  (Path.startsWith_or_startsWith h hother).symm

/-- Projects around a path that are equally deep have the same root. -/
theorem root_same_of_depth_eq
    {project other : Project}
    {path : Path}
    (h : project.covers path = true)
    (hother : other.covers path = true)
    (hdepth : SearchMemory.depth project = SearchMemory.depth other) :
    project.root.Same other.root := by
  rcases Path.startsWith_or_startsWith h hother with hunder | hunder
  · exact Path.same_of_startsWith_of_length_le hunder hdepth.le
  · exact (Path.same_of_startsWith_of_length_le hunder hdepth.ge).symm

end Project

namespace SearchMemory

/-- The project is remembered, is around the path, and no other one that is so is deeper. -/
structure IsDeepest (memory : SearchMemory) (path : Path) (project : Project) : Prop where
  mem : project ∈ memory.projects
  covers : project.covers path = true
  depth_le : ∀ other ∈ memory.projects, other.covers path = true → depth other ≤ depth project

section

variable {memory : SearchMemory} {path : Path} {project other : Project}

theorem isDeepest_of_enclosing?
    (h : memory.enclosing? path = some project) :
    memory.IsDeepest path project := by
  obtain ⟨hmem, hcovers, hdepth⟩ := enclosing?_spec h
  exact ⟨hmem, hcovers, hdepth⟩

theorem IsDeepest.root_same
    (h : memory.IsDeepest path project)
    (hother : memory.IsDeepest path other) :
    project.root.Same other.root := by
  refine Project.root_same_of_depth_eq h.covers hother.covers ?_
  exact Nat.le_antisymm (hother.depth_le project h.mem h.covers)
    (h.depth_le other hother.mem hother.covers)

/-- The deepest projects around a path are those with the root that is found in memory. -/
theorem isDeepest_iff :
    memory.IsDeepest path project ↔
      project ∈ memory.projects ∧
        ∃ found, memory.enclosing? path = some found ∧ project.root.Same found.root := by
  constructor
  · intro h
    refine ⟨h.mem, ?_⟩
    cases hfound : memory.enclosing? path with
    | none => exact absurd h.covers (enclosing?_eq_none_iff.1 hfound project h.mem)
    | some found => exact ⟨found, rfl, h.root_same (isDeepest_of_enclosing? hfound)⟩
  · rintro ⟨hmem, found, hfound, hsame⟩
    obtain ⟨-, hcovers, hdepth⟩ := enclosing?_spec hfound
    have hequal : depth project = depth found := congrArg List.length hsame
    refine ⟨hmem, ?_, ?_⟩
    · rw [Project.covers, Path.startsWith_congr_base path hsame]
      exact hcovers
    · rw [hequal]
      exact hdepth

end

end SearchMemory

namespace Project

/--
A project and a path, each spelled in any way.  A path in the project is the root with the path
seen from it, and any other path is left as it is.  Of two projects around the path one has its
root in the other, and they have the same root if they are equally deep.  So what is remembered has
at most one root that is deepest around the path, and it is the one that is found.  Paths of the
project that differ are seen from the root under different texts.
-/
theorem path_told_by_root_and_rest
    (project : Project)
    (path : Path) :
    (project.covers path = true →
      (project.root.join (project.pathWithin path)).Same path ∧
        path.components = project.root.components ++ (project.pathWithin path).components) ∧
    (project.covers path = false → project.pathWithin path = path) ∧
    (∀ other : Project, project.covers path = true → other.covers path = true →
      (project.covers other.root = true ∨ other.covers project.root = true) ∧
        (project.root.components.length = other.root.components.length →
          project.root.Same other.root)) ∧
    (∀ memory : SearchMemory,
      (∀ other : Project, memory.IsDeepest path project → memory.IsDeepest path other →
        project.root.Same other.root) ∧
      (memory.IsDeepest path project ↔
        project ∈ memory.projects ∧
          ∃ found, memory.enclosing? path = some found ∧ project.root.Same found.root)) ∧
    (∀ other : Path, project.covers path = true → project.covers other = true →
      ¬ path.Same other → (project.pathWithin path).text ≠ (project.pathWithin other).text) := by
  refine ⟨?_, pathWithin_eq_self, ?_, ?_, ?_⟩
  · intro hcovers
    exact ⟨same_join_pathWithin hcovers, components_pathWithin hcovers⟩
  · intro other hcovers hother
    exact ⟨covers_root_or_covers_root hcovers hother, root_same_of_depth_eq hcovers hother⟩
  · intro memory
    exact ⟨fun _ h hother => h.root_same hother, SearchMemory.isDeepest_iff⟩
  · intro other hcovers hother hdiffer htext
    exact hdiffer (same_of_pathWithin_eq hcovers hother htext)

/-- A root, spelled with a separator too many and a `.` at the end. -/
def respelledProject : Project :=
  ⟨⟨"/work//app/."⟩⟩

/-- A file of the project, spelled in such a way as well. -/
def respelledFile : Path :=
  ⟨"/work/app//src/./lib.rs/"⟩

/-- The project is remembered under two spellings, with one that it lies in. -/
def respelledMemory : SearchMemory :=
  { projects := [⟨⟨"/work"⟩⟩, respelledProject, ⟨⟨"/work/app"⟩⟩], strays := [] }

theorem path_told_by_root_and_rest_respelled :
    respelledProject.covers respelledFile = true ∧
      respelledProject.covers ⟨"/work/app-cli/main.rs"⟩ = false ∧
      (respelledProject.root.join ⟨"src/./lib.rs"⟩).Same respelledFile ∧
      respelledProject.pathWithin ⟨"/work/app-cli/main.rs"⟩ = ⟨"/work/app-cli/main.rs"⟩ ∧
      respelledProject.root.Same ⟨"/work/app"⟩ ∧
      respelledMemory.IsDeepest respelledFile respelledProject ∧
      (respelledProject.pathWithin respelledFile).text ≠
        (respelledProject.pathWithin ⟨"/work/app/src/main.rs"⟩).text := by
  have hcovers : respelledProject.covers respelledFile = true := by decide
  have houtside : respelledProject.covers ⟨"/work/app-cli/main.rs"⟩ = false := by decide
  have hrest : respelledProject.pathWithin respelledFile = ⟨"src/./lib.rs"⟩ := by decide
  have hfound : respelledMemory.enclosing? respelledFile = some ⟨⟨"/work/app"⟩⟩ := by decide
  obtain ⟨hjoin, -, haround, hdeepest, hdiffer⟩ :=
    path_told_by_root_and_rest respelledProject respelledFile
  refine ⟨hcovers, houtside, ?_, ?_, ?_, ?_, ?_⟩
  · rw [← hrest]
    exact (hjoin hcovers).1
  · exact (path_told_by_root_and_rest respelledProject ⟨"/work/app-cli/main.rs"⟩).2.1 houtside
  · exact (haround ⟨⟨"/work/app"⟩⟩ hcovers (by decide)).2 (by decide)
  · refine (hdeepest respelledMemory).2.2 ⟨?_, _, hfound, ?_⟩
    · decide
    · decide
  · exact hdiffer ⟨"/work/app/src/main.rs"⟩ hcovers (by decide) (by decide)

end Project
end TargetLint
