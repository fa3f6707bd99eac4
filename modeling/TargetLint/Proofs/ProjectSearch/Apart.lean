import TargetLint.Proofs.ProjectSearch.Locate

/-!
# Searches in projects apart from each other

If every remembered project is the one at a given root or lies apart from it, then a
search for a path of that root sees only what is remembered of the root, and a search
for a path of a project apart from it leaves that as it is.
-/

namespace TargetLint

namespace SearchMemory

/-- The remembered projects at a root. -/
def projectsAt (memory : SearchMemory) (root : Path) : List Project :=
  memory.projects.filter fun project => decide (project.root.Same root)

/-- Every remembered project is at the root or apart from it, and no stray is remembered. -/
structure KeepsApart (memory : SearchMemory) (root : Path) : Prop where
  strays : memory.strays = []
  projects : ∀ project ∈ memory.projects, project.root.Same root ∨ project.root.Apart root

variable {memory : SearchMemory} {root path : Path} {project : Project}

theorem keepsApart_empty (root : Path) : empty.KeepsApart root where
  strays := rfl
  projects := by
    intro project hproject
    cases hproject

theorem KeepsApart.isStray_eq_false
    (h : memory.KeepsApart root)
    (path : Path) :
    memory.isStray path = false := by
  rw [isStray, h.strays]
  rfl

theorem KeepsApart.addProject
    (h : memory.KeepsApart root)
    (hproject : project.root.Same root ∨ project.root.Apart root) :
    (memory.addProject project).KeepsApart root := by
  have hstrays : (memory.addProject project).strays = memory.strays := by
    unfold SearchMemory.addProject
    split <;> rfl
  refine ⟨hstrays.trans h.strays, ?_⟩
  intro other hother
  rw [projects_addProject] at hother
  split at hother
  · exact h.projects other hother
  · rcases List.mem_append.1 hother with hold | hnew
    · exact h.projects other hold
    · rw [List.mem_singleton.1 hnew]
      exact hproject

/-- Of the remembered projects, those at the root are those that cover a path within it. -/
theorem KeepsApart.enclosing?_eq
    (h : memory.KeepsApart root)
    (hpath : path.startsWith root = true) :
    memory.enclosing? path = deepest? (memory.projectsAt root) := by
  rw [enclosing?, projectsAt]
  congr 1
  refine List.filter_congr ?_
  intro project hproject
  rcases h.projects project hproject with hsame | hapart
  · rw [Project.covers, Path.startsWith_congr_base path hsame, hpath, decide_eq_true hsame]
  · rw [Project.covers, hapart.symm.startsWith_eq_false hpath, decide_eq_false hapart.not_same]

theorem root_of_deepest?_projectsAt
    (memory : SearchMemory)
    (hproject : project.root.Same root) :
    ((deepest? (memory.projectsAt root)).getD project).root.Same root := by
  cases hfound : deepest? (memory.projectsAt root) with
  | some found =>
      obtain ⟨hmem, -⟩ := deepest?_spec hfound
      exact of_decide_eq_true (List.mem_filter.1 hmem).2
  | none => exact hproject

theorem projectsAt_addProject_of_nil
    (hnil : memory.projectsAt root = [])
    (hproject : project.root.Same root) :
    (memory.addProject project).projectsAt root = [project] := by
  have hnew : ¬ (memory.projects.any fun other => other.root.Same project.root) = true := by
    intro hany
    obtain ⟨other, hother, hsame⟩ := List.any_eq_true.1 hany
    have hmem : other ∈ memory.projectsAt root :=
      List.mem_filter.2 ⟨hother, decide_eq_true ((of_decide_eq_true hsame).trans hproject)⟩
    rw [hnil] at hmem
    cases hmem
  rw [projectsAt] at hnil
  rw [projectsAt, projects_addProject, if_neg hnew, List.filter_append, hnil]
  simp [hproject]

theorem projectsAt_addProject_of_not_same
    (memory : SearchMemory)
    (hproject : ¬ project.root.Same root) :
    (memory.addProject project).projectsAt root = memory.projectsAt root := by
  rw [projectsAt, projects_addProject]
  split
  · rfl
  · rw [List.filter_append, projectsAt]
    simp [hproject]

end SearchMemory

namespace ProjectSearch

variable {host : Host} {manifest : String} {memory : SearchMemory} {root path : Path}
  {project : Project}

theorem keepsApart_locate
    (h : memory.KeepsApart root)
    (hwalk : walk host manifest path = some project)
    (hproject : project.root.Same root ∨ project.root.Apart root) :
    ((locate manifest memory path).value host).2.KeepsApart root := by
  rw [value_locate, h.isStray_eq_false, hwalk]
  cases memory.enclosing? path with
  | some other => exact h
  | none => exact h.addProject hproject

/-- What a search for a path of the root finds, and what is remembered of the root afterwards. -/
theorem locate_of_same
    (h : memory.KeepsApart root)
    (hwalk : walk host manifest path = some project)
    (hroot : project.root.Same root) :
    ((locate manifest memory path).value host).1 =
        .ok ((SearchMemory.deepest? (memory.projectsAt root)).getD project) ∧
      ((locate manifest memory path).value host).2.projectsAt root =
        if memory.projectsAt root = [] then [project] else memory.projectsAt root := by
  have hpath : path.startsWith root = true := by
    rw [← Path.startsWith_congr_base path hroot]
    exact covers_of_walk hwalk
  rw [value_locate, h.isStray_eq_false, hwalk, h.enclosing?_eq hpath]
  cases hfound : SearchMemory.deepest? (memory.projectsAt root) with
  | some other =>
      have hsome : memory.projectsAt root ≠ [] := by
        intro hnil
        rw [SearchMemory.deepest?_eq_none_iff.2 hnil] at hfound
        cases hfound
      rw [if_neg hsome]
      exact ⟨rfl, rfl⟩
  | none =>
      have hnil : memory.projectsAt root = [] := SearchMemory.deepest?_eq_none_iff.1 hfound
      rw [if_pos hnil]
      exact ⟨rfl, SearchMemory.projectsAt_addProject_of_nil hnil hroot⟩

/-- A search for a path of a project apart from the root ends in such a project. -/
theorem locate_of_apart
    (h : memory.KeepsApart root)
    (hwalk : walk host manifest path = some project)
    (hapart : project.root.Apart root) :
    (∃ found, ((locate manifest memory path).value host).1 = .ok found ∧
        found.root.Apart root) ∧
      ((locate manifest memory path).value host).2.projectsAt root = memory.projectsAt root := by
  have hpath : path.startsWith root = false :=
    hapart.startsWith_eq_false (covers_of_walk hwalk)
  rw [value_locate, h.isStray_eq_false, hwalk]
  cases hfound : memory.enclosing? path with
  | some other =>
      obtain ⟨hmem, hcovers, -⟩ := SearchMemory.enclosing?_spec hfound
      refine ⟨⟨other, rfl, ?_⟩, rfl⟩
      rcases h.projects other hmem with hsame | hother
      · rw [Project.covers, Path.startsWith_congr_base path hsame, hpath] at hcovers
        cases hcovers
      · exact hother
  | none =>
      refine ⟨⟨project, rfl, hapart⟩, ?_⟩
      exact SearchMemory.projectsAt_addProject_of_not_same memory hapart.not_same

end ProjectSearch
end TargetLint
