import TargetLint.Proofs.Path.Prefix
import Mathlib.Data.List.Induction

/-!
# What a search finds and remembers

A search answers from what it remembers or goes up from the path.  Either way the
project that it finds covers the path and is remembered afterwards, and nothing that
was remembered is lost.
-/

namespace TargetLint

namespace SearchMemory

theorem deepest?_snoc
    (projects : List Project)
    (project : Project) :
    deepest? (projects ++ [project]) =
      match deepest? projects with
      | some other => if depth other ≤ depth project then some project else some other
      | none => some project := by
  rw [deepest?, List.foldl_append, ← deepest?]
  cases deepest? projects <;> rfl

theorem deepest?_eq_none_iff
    {projects : List Project} :
    deepest? projects = none ↔ projects = [] := by
  constructor
  · intro hnone
    rcases List.eq_nil_or_concat projects with rfl | ⟨before, last, rfl⟩
    · rfl
    · rw [List.concat_eq_append, deepest?_snoc] at hnone
      cases hbefore : deepest? before with
      | none => simp [hbefore] at hnone
      | some other =>
          simp only [hbefore] at hnone
          split at hnone <;> cases hnone
  · rintro rfl
    rfl

/-- The deepest project is one of those given, and none of them is deeper. -/
theorem deepest?_spec
    {projects : List Project}
    {project : Project}
    (h : deepest? projects = some project) :
    project ∈ projects ∧ ∀ other ∈ projects, depth other ≤ depth project := by
  induction projects using List.reverseRecOn generalizing project with
  | nil => cases h
  | append_singleton before last ih =>
      rw [deepest?_snoc] at h
      cases hbefore : deepest? before with
      | none =>
          rw [deepest?_eq_none_iff.1 hbefore] at h ⊢
          obtain rfl : last = project := by simpa [deepest?] using h
          simp
      | some best =>
          obtain ⟨hmem, hdeepest⟩ := ih hbefore
          simp only [hbefore] at h
          split at h
          · rename_i hle
            obtain rfl := Option.some.inj h
            refine ⟨by simp, ?_⟩
            intro other hother
            rcases List.mem_append.1 hother with hold | hlast
            · exact Nat.le_trans (hdeepest other hold) hle
            · exact Nat.le_of_eq (congrArg depth (List.mem_singleton.1 hlast))
          · rename_i hlt
            obtain rfl := Option.some.inj h
            refine ⟨List.mem_append_left _ hmem, ?_⟩
            intro other hother
            rcases List.mem_append.1 hother with hold | hlast
            · exact hdeepest other hold
            · rw [List.mem_singleton.1 hlast]
              omega

/-- Projects that are all less deep do not matter. -/
theorem deepest?_append_of_forall_lt
    {projects others : List Project}
    {project : Project}
    (h : deepest? projects = some project)
    (hless : ∀ other ∈ others, depth other < depth project) :
    deepest? (projects ++ others) = some project := by
  induction others using List.reverseRecOn with
  | nil => simpa using h
  | append_singleton before last ih =>
      have hbefore := ih fun other hother => hless other (List.mem_append_left _ hother)
      have hlast : depth last < depth project := hless last (by simp)
      rw [← List.append_assoc, deepest?_snoc, hbefore]
      exact if_neg (by omega)

/-- The remembered project of a path covers it, and no other one that does is deeper. -/
theorem enclosing?_spec
    {memory : SearchMemory}
    {path : Path}
    {project : Project}
    (h : memory.enclosing? path = some project) :
    project ∈ memory.projects ∧ project.covers path = true ∧
      ∀ other ∈ memory.projects, other.covers path = true → depth other ≤ depth project := by
  obtain ⟨hmem, hdeepest⟩ := deepest?_spec h
  obtain ⟨hproject, hcovers⟩ := List.mem_filter.1 hmem
  exact ⟨hproject, hcovers, fun other hother hover =>
    hdeepest other (List.mem_filter.2 ⟨hother, hover⟩)⟩

theorem enclosing?_eq_none_iff
    {memory : SearchMemory}
    {path : Path} :
    memory.enclosing? path = none ↔
      ∀ project ∈ memory.projects, ¬ project.covers path = true := by
  rw [enclosing?, deepest?_eq_none_iff, List.filter_eq_nil_iff]

/-- A project with this root is remembered. -/
def Remembers (memory : SearchMemory) (root : Path) : Prop :=
  ∃ project ∈ memory.projects, project.root.Same root

theorem projects_addProject
    (memory : SearchMemory)
    (project : Project) :
    (memory.addProject project).projects =
      if memory.projects.any (fun other => other.root.Same project.root) then
        memory.projects
      else
        memory.projects ++ [project] := by
  unfold addProject
  split <;> rfl

/-- A project around a path that no remembered project covers is new. -/
theorem addProject_of_enclosing?_eq_none
    {memory : SearchMemory}
    {path : Path}
    {project : Project}
    (hnone : memory.enclosing? path = none)
    (hcovers : project.covers path = true) :
    memory.addProject project = { memory with projects := memory.projects ++ [project] } := by
  have hnew : ¬ (memory.projects.any fun other => other.root.Same project.root) = true := by
    intro hany
    obtain ⟨other, hother, hsame⟩ := List.any_eq_true.1 hany
    refine enclosing?_eq_none_iff.1 hnone other hother ?_
    rw [Project.covers, Path.startsWith_congr_base path (of_decide_eq_true hsame)]
    exact hcovers
  exact if_neg hnew

/-- Such a project is the remembered one for the path from then on. -/
theorem enclosing?_of_projects_eq_snoc
    {memory later : SearchMemory}
    {path : Path}
    {project : Project}
    (hnone : memory.enclosing? path = none)
    (hcovers : project.covers path = true)
    (hlater : later.projects = memory.projects ++ [project]) :
    later.enclosing? path = some project := by
  have hold := List.filter_eq_nil_iff.2 (enclosing?_eq_none_iff.1 hnone)
  rw [enclosing?, hlater, List.filter_append, hold]
  simp [hcovers, deepest?]

/--
A path that denotes a remembered root belongs to that project: no project that covers the root can
be deeper.
-/
theorem Remembers.enclosing?_same
    {memory : SearchMemory}
    {root path : Path}
    (h : memory.Remembers root)
    (hpath : path.Same root) :
    ∃ project, memory.enclosing? path = some project ∧ project.root.Same root := by
  obtain ⟨own, hown, hsame⟩ := h
  have hcovers : own.covers path = true := Path.startsWith_of_same (hpath.trans hsame.symm)
  cases hfound : memory.enclosing? path with
  | none => exact absurd hcovers (enclosing?_eq_none_iff.1 hfound own hown)
  | some project =>
      obtain ⟨-, hproject, hdeepest⟩ := enclosing?_spec hfound
      refine ⟨project, rfl, ?_⟩
      have hlength : path.components.length ≤ project.root.components.length := by
        rw [show path.components = own.root.components from hpath.trans hsame.symm]
        exact hdeepest own hown hcovers
      exact (Path.same_of_startsWith_of_length_le hproject hlength).symm.trans hpath

end SearchMemory

namespace ProjectSearch

/-- The project that a host's files lead to when going up from a path, nothing being remembered. -/
def walk (host : Host) (manifest : String) (path : Path) : Option Project :=
  ((candidates (host (.isDirectory path)) path).find? fun directory =>
    host (.fileExists (directory.join ⟨manifest⟩))).map Project.mk

theorem value_ascend
    (host : Host)
    (manifest : String)
    (path : Path) :
    (ascend manifest path).value host = walk host manifest path := by
  rw [ascend, Consult.value_bind, Consult.value_bind, Consult.value_first?]
  rfl

theorem value_locate
    (host : Host)
    (manifest : String)
    (memory : SearchMemory)
    (path : Path) :
    (locate manifest memory path).value host =
      match memory.enclosing? path with
      | some project => (.ok project, memory)
      | none =>
          if memory.isStray path then
            (.error ⟨path, manifest⟩, memory)
          else
            ((walk host manifest path).elim (.error ⟨path, manifest⟩) .ok,
              settle memory path (walk host manifest path)) := by
  unfold locate
  cases memory.enclosing? path with
  | some project => rfl
  | none =>
      by_cases hstray : memory.isStray path = true
      · simp [hstray]
      · simp [hstray, value_ascend]

theorem mem_ancestors_of_mem_candidates
    {isDirectory : Bool}
    {path directory : Path}
    (h : directory ∈ candidates isDirectory path) :
    directory ∈ path.ancestors := by
  have hmem := (List.takeWhile_sublist _).subset h
  cases isDirectory with
  | true => exact hmem
  | false => exact List.mem_of_mem_drop hmem

/-- The project found by going up covers the path. -/
theorem covers_of_walk
    {host : Host}
    {manifest : String}
    {path : Path}
    {project : Project}
    (h : walk host manifest path = some project) :
    project.covers path = true := by
  obtain ⟨directory, hfound, rfl⟩ := Option.map_eq_some_iff.1 h
  exact Path.startsWith_of_mem_ancestors
    (mem_ancestors_of_mem_candidates (List.mem_of_find?_eq_some hfound))

/-- How a search may end: with what it finds and what is remembered afterwards. -/
inductive Outcome (host : Host) (manifest : String) (memory : SearchMemory) (path : Path) :
    Except NoManifest Project × SearchMemory → Prop
  | known
      {project : Project}
      (henclosing : memory.enclosing? path = some project) :
      Outcome host manifest memory path (.ok project, memory)
  | stray
      (hnone : memory.enclosing? path = none)
      (hstray : memory.isStray path = true) :
      Outcome host manifest memory path (.error ⟨path, manifest⟩, memory)
  | discovered
      {project : Project}
      (hnone : memory.enclosing? path = none)
      (hstray : memory.isStray path = false)
      (hwalk : walk host manifest path = some project) :
      Outcome host manifest memory path
        (.ok project, { memory with projects := memory.projects ++ [project] })
  | lost
      (hnone : memory.enclosing? path = none)
      (hstray : memory.isStray path = false)
      (hwalk : walk host manifest path = none) :
      Outcome host manifest memory path
        (.error ⟨path, manifest⟩, { memory with strays := memory.strays ++ [path] })

theorem locate_outcome
    (host : Host)
    (manifest : String)
    (memory : SearchMemory)
    (path : Path) :
    Outcome host manifest memory path ((locate manifest memory path).value host) := by
  rw [value_locate]
  cases henclosing : memory.enclosing? path with
  | some project => exact .known henclosing
  | none =>
      cases hstray : memory.isStray path with
      | true => exact .stray henclosing hstray
      | false =>
          cases hwalk : walk host manifest path with
          | none =>
              have hadded : memory.addStray path =
                  { memory with strays := memory.strays ++ [path] } := by
                simp [SearchMemory.addStray, hstray]
              simpa [settle, hadded] using Outcome.lost henclosing hstray hwalk
          | some project =>
              have hadded :=
                SearchMemory.addProject_of_enclosing?_eq_none henclosing (covers_of_walk hwalk)
              simpa [settle, hadded] using Outcome.discovered henclosing hstray hwalk

/-- A project that a search finds covers the path and is remembered afterwards. -/
theorem locate_ok
    {host : Host}
    {manifest : String}
    {memory after : SearchMemory}
    {path : Path}
    {project : Project}
    (h : (locate manifest memory path).value host = (.ok project, after)) :
    project.covers path = true ∧ after.Remembers project.root := by
  have houtcome := locate_outcome host manifest memory path
  rw [h] at houtcome
  cases houtcome with
  | known henclosing =>
      obtain ⟨hmem, hcovers, -⟩ := SearchMemory.enclosing?_spec henclosing
      exact ⟨hcovers, project, hmem, Path.Same.refl _⟩
  | discovered _ _ hwalk =>
      exact ⟨covers_of_walk hwalk, project, by simp, Path.Same.refl _⟩

/-- A search forgets no project. -/
theorem mem_projects_of_locate
    {host : Host}
    {manifest : String}
    {memory : SearchMemory}
    {path : Path}
    {project : Project}
    (h : project ∈ memory.projects) :
    project ∈ ((locate manifest memory path).value host).2.projects := by
  have houtcome := locate_outcome host manifest memory path
  generalize (locate manifest memory path).value host = result at houtcome ⊢
  cases houtcome with
  | known => exact h
  | stray => exact h
  | discovered => exact List.mem_append_left _ h
  | lost => exact h

/-- A project that was found is the one that memory has for the path from then on. -/
theorem enclosing?_of_locate_eq_ok
    {host : Host}
    {manifest : String}
    {memory : SearchMemory}
    {path : Path}
    {project : Project}
    (h : ((locate manifest memory path).value host).1 = .ok project) :
    ((locate manifest memory path).value host).2.enclosing? path = some project := by
  have houtcome := locate_outcome host manifest memory path
  generalize (locate manifest memory path).value host = result at houtcome h ⊢
  cases houtcome with
  | known henclosing =>
      obtain rfl := Except.ok.inj h
      exact henclosing
  | stray => cases h
  | discovered hnone _ hwalk =>
      obtain rfl := Except.ok.inj h
      exact SearchMemory.enclosing?_of_projects_eq_snoc hnone (covers_of_walk hwalk) rfl
  | lost => cases h

theorem locate_again
    {host again : Host}
    {manifest : String}
    {memory : SearchMemory}
    {path : Path}
    {project : Project}
    (h : ((locate manifest memory path).value host).1 = .ok project) :
    ((locate manifest ((locate manifest memory path).value host).2 path).value again).1 =
      .ok project := by
  rw [value_locate again, enclosing?_of_locate_eq_ok h]

end ProjectSearch
end TargetLint
