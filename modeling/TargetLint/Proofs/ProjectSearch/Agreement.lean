import TargetLint.Proofs.Path.Ancestors
import TargetLint.Proofs.Path.Spelling
import TargetLint.Proofs.ProjectSearch.Locate

/-!
# Searches that remember agree with going up

Going up from a path finds the deepest project over it.  What is remembered of
earlier searches never decides otherwise whether there is a project: a remembered
project has its manifest, so going up would find one too, and going up from a stray
has found none.  A remembered project may only be less deep than the one that going
up would find, and where no project lies in another it is the same one.
-/

namespace TargetLint
namespace ProjectSearch

/-- The directory can be told by its path and holds the manifest. -/
structure IsRoot (host : Host) (manifest : String) (directory : Path) : Prop where
  nonempty : directory.components ≠ []
  holds : host (.fileExists (directory.join ⟨manifest⟩)) = true

/--
The host goes by what a path denotes and not by its spelling, and what holds a manifest is a
directory.
-/
structure Coherent (host : Host) (manifest : String) : Prop where
  fileExists_congr : ∀ p q : Path, p.Same q → host (.fileExists p) = host (.fileExists q)
  isDirectory_congr : ∀ p q : Path, p.Same q → host (.isDirectory p) = host (.isDirectory q)
  isDirectory_of_isRoot : ∀ directory, IsRoot host manifest directory →
    host (.isDirectory directory) = true

variable {host : Host} {manifest name : String} {path directory : Path} {project : Project}
  {memory : SearchMemory}

theorem components_candidates
    (isDirectory : Bool)
    (path : Path) :
    (candidates isDirectory path).map Path.components =
      (Path.beginnings path.components).drop (if isDirectory then 0 else 1) := by
  cases isDirectory with
  | true => exact Path.components_ancestors path
  | false => exact Path.components_shortened_segments path

/-- Every directory over a path is a candidate, the path itself if it is a directory. -/
theorem exists_mem_candidates
    {isDirectory : Bool}
    (hnonempty : directory.components ≠ [])
    (hpath : path.startsWith directory = true)
    (hself : path.Same directory → isDirectory = true) :
    ∃ candidate ∈ candidates isDirectory path, candidate.Same directory := by
  suffices hmem : directory.components ∈ (candidates isDirectory path).map Path.components from
    List.mem_map.1 hmem
  have hbeginning : directory.components ∈ Path.beginnings path.components :=
    Path.mem_beginnings.2 ⟨hnonempty, Path.startsWith_iff.1 hpath⟩
  rw [components_candidates]
  cases isDirectory with
  | true => exact hbeginning
  | false =>
      have hpathNonempty : path.components ≠ [] := by
        intro hnil
        rw [hnil] at hbeginning
        cases hbeginning
      rw [Path.beginnings_eq_cons hpathNonempty] at hbeginning
      rcases List.mem_cons.1 hbeginning with hsame | hshorter
      · cases hself hsame.symm
      · exact hshorter

theorem pairwise_candidates
    (isDirectory : Bool)
    (path : Path) :
    (candidates isDirectory path).Pairwise fun nearer farther =>
      nearer.startsWith farther = true := by
  have hcomponents : ((candidates isDirectory path).map Path.components).Pairwise
      fun nearer farther => farther <+: nearer := by
    rw [components_candidates]
    exact (Path.pairwise_beginnings _).drop
  exact (List.pairwise_map.1 hcomponents).imp Path.startsWith_iff.2

theorem components_ne_nil_of_mem_candidates
    {isDirectory : Bool}
    (h : directory ∈ candidates isDirectory path) :
    directory.components ≠ [] := by
  have hbeginning : directory.components ∈ (candidates isDirectory path).map Path.components :=
    List.mem_map_of_mem h
  rw [components_candidates] at hbeginning
  exact (Path.mem_beginnings.1 (List.mem_of_mem_drop hbeginning)).1

theorem isRoot_of_walk
    (h : walk host manifest path = some project) :
    IsRoot host manifest project.root := by
  obtain ⟨directory, hfound, rfl⟩ := Option.map_eq_some_iff.1 h
  exact ⟨components_ne_nil_of_mem_candidates (List.mem_of_find?_eq_some hfound),
    List.find?_some hfound⟩

theorem IsRoot.congr
    (hhost : Coherent host manifest)
    (hmanifest : (Path.mk manifest).lead = .none)
    (h : IsRoot host manifest directory)
    {other : Path}
    (hsame : directory.Same other) :
    IsRoot host manifest other := by
  have hcomponents : directory.components = other.components := hsame
  have hjoin : (directory.join ⟨manifest⟩).Same (other.join ⟨manifest⟩) := by
    rw [Path.Same, Path.components_join _ hmanifest, Path.components_join _ hmanifest,
      hcomponents]
  constructor
  · rw [← hcomponents]
    exact h.nonempty
  · rw [← hhost.fileExists_congr _ _ hjoin]
    exact h.holds

/-- Going up from a path under a root finds a project that lies under that root. -/
theorem exists_walk_of_isRoot
    (hhost : Coherent host manifest)
    (hmanifest : (Path.mk manifest).lead = .none)
    (h : IsRoot host manifest directory)
    (hpath : path.startsWith directory = true) :
    ∃ found, walk host manifest path = some found ∧ found.root.startsWith directory = true := by
  have hself : path.Same directory → host (.isDirectory path) = true := by
    intro hsame
    rw [hhost.isDirectory_congr path directory hsame]
    exact hhost.isDirectory_of_isRoot directory h
  obtain ⟨candidate, hcandidate, hsame⟩ := exists_mem_candidates h.nonempty hpath hself
  have hholds := (h.congr hhost hmanifest hsame.symm).holds
  cases hfind : (candidates (host (.isDirectory path)) path).find? fun directory =>
      host (.fileExists (directory.join ⟨manifest⟩)) with
  | none => exact absurd hholds (List.find?_eq_none.1 hfind candidate hcandidate)
  | some found =>
      refine ⟨⟨found⟩, by rw [walk, hfind]; rfl, ?_⟩
      rw [← Path.startsWith_congr_base found hsame]
      obtain ⟨-, before, after, hsplit, hbefore⟩ := List.find?_eq_some_iff_append.1 hfind
      have hpairwise := pairwise_candidates (host (.isDirectory path)) path
      rw [hsplit] at hcandidate hpairwise
      rcases List.mem_append.1 hcandidate with hearly | hlate
      · have hfails := hbefore candidate hearly
        rw [hholds] at hfails
        cases hfails
      · rcases List.mem_cons.1 hlate with rfl | hfarther
        · exact Path.startsWith_of_same (Path.Same.refl _)
        · exact List.rel_of_pairwise_cons (List.pairwise_append.1 hpairwise).2.1 hfarther

/-- Going up finds nothing exactly where no root lies over the path. -/
theorem walk_eq_none_iff
    (hhost : Coherent host manifest)
    (hmanifest : (Path.mk manifest).lead = .none) :
    walk host manifest path = none ↔
      ∀ directory, IsRoot host manifest directory → path.startsWith directory = false := by
  constructor
  · intro hnone directory hroot
    rw [← Bool.not_eq_true]
    intro hpath
    obtain ⟨found, hfound, -⟩ := exists_walk_of_isRoot hhost hmanifest hroot hpath
    rw [hnone] at hfound
    cases hfound
  · intro hroots
    cases hwalk : walk host manifest path with
    | none => rfl
    | some found =>
        have hcovers : path.startsWith found.root = true := covers_of_walk hwalk
        rw [hroots found.root (isRoot_of_walk hwalk)] at hcovers
        cases hcovers

/-- What is remembered is true: projects have their manifest, and going up from strays fails. -/
structure Faithful (host : Host) (manifest : String) (memory : SearchMemory) : Prop where
  projects : ∀ project ∈ memory.projects, IsRoot host manifest project.root
  strays : ∀ stray ∈ memory.strays, walk host manifest stray = none

theorem faithful_empty : Faithful host manifest .empty where
  projects := by
    intro project hproject
    cases hproject
  strays := by
    intro stray hstray
    cases hstray

theorem faithful_locate
    (h : Faithful host manifest memory)
    (path : Path) :
    Faithful host manifest ((locate manifest memory path).value host).2 := by
  have houtcome := locate_outcome host manifest memory path
  generalize (locate manifest memory path).value host = result at houtcome ⊢
  cases houtcome with
  | known => exact h
  | stray => exact h
  | discovered _ _ hwalk =>
      refine ⟨List.forall_mem_append.2 ⟨h.projects, ?_⟩, h.strays⟩
      simpa using isRoot_of_walk hwalk
  | lost _ _ hwalk =>
      refine ⟨h.projects, List.forall_mem_append.2 ⟨h.strays, ?_⟩⟩
      simpa using hwalk

/-- What is remembered after searching for some paths in their order. -/
def remembered (host : Host) (manifest : String) (paths : List Path) : SearchMemory :=
  paths.foldl (fun memory path => ((locate manifest memory path).value host).2) .empty

theorem faithful_remembered
    (host : Host)
    (manifest : String)
    (paths : List Path) :
    Faithful host manifest (remembered host manifest paths) := by
  induction paths using List.reverseRecOn with
  | nil => exact faithful_empty
  | append_singleton before path ih =>
      rw [remembered, List.foldl_append]
      exact faithful_locate ih path

/-- What a search finds after searches for other paths. -/
def located
    (host : Host)
    (manifest : String)
    (earlier : List Path)
    (path : Path) :
    Except NoManifest Project :=
  ((locate manifest (remembered host manifest earlier) path).value host).1

section

variable (hhost : Coherent host manifest) (hmanifest : (Path.mk manifest).lead = .none)

include hhost hmanifest

theorem Faithful.enclosing?_eq_none
    (h : Faithful host manifest memory)
    (hwalk : walk host manifest path = none) :
    memory.enclosing? path = none := by
  refine SearchMemory.enclosing?_eq_none_iff.2 ?_
  intro project hproject hcovers
  have hroot := h.projects project hproject
  rw [Project.covers, (walk_eq_none_iff hhost hmanifest).1 hwalk project.root hroot] at hcovers
  cases hcovers

theorem Faithful.isStray_eq_false
    (h : Faithful host manifest memory)
    {found : Project}
    (hwalk : walk host manifest path = some found) :
    memory.isStray path = false := by
  rw [← Bool.not_eq_true]
  intro hstray
  obtain ⟨stray, hmem, hsame⟩ := List.any_eq_true.1 hstray
  have hcovers : path.startsWith found.root = true := covers_of_walk hwalk
  rw [← Path.startsWith_congr found.root (of_decide_eq_true hsame),
    (walk_eq_none_iff hhost hmanifest).1 (h.strays stray hmem) found.root
      (isRoot_of_walk hwalk)] at hcovers
  cases hcovers

theorem locate_of_walk_eq_none
    (h : Faithful host manifest memory)
    (hwalk : walk host manifest path = none) :
    ((locate manifest memory path).value host).1 = .error ⟨path, manifest⟩ := by
  rw [value_locate, h.enclosing?_eq_none hhost hmanifest hwalk, hwalk]
  dsimp only
  split <;> rfl

/-- Where going up finds a project, a search finds it or a remembered one around it. -/
theorem locate_of_walk_eq_some
    (h : Faithful host manifest memory)
    {found : Project}
    (hwalk : walk host manifest path = some found) :
    ∃ project, ((locate manifest memory path).value host).1 = .ok project ∧
      project.covers path = true ∧ IsRoot host manifest project.root ∧
      project.covers found.root = true := by
  rw [value_locate, h.isStray_eq_false hhost hmanifest hwalk, hwalk]
  cases henclosing : memory.enclosing? path with
  | some project =>
      obtain ⟨hproject, hcovers, -⟩ := SearchMemory.enclosing?_spec henclosing
      have hroot := h.projects project hproject
      -- The remembered root lies over the path, so going up meets it at the latest.
      obtain ⟨deepest, hdeepest, hunder⟩ := exists_walk_of_isRoot hhost hmanifest hroot hcovers
      rw [hwalk] at hdeepest
      obtain rfl := Option.some.inj hdeepest
      exact ⟨project, rfl, hcovers, hroot, hunder⟩
  | none =>
      exact ⟨found, rfl, covers_of_walk hwalk, isRoot_of_walk hwalk,
        Path.startsWith_of_same (Path.Same.refl _)⟩

/-- Where no project lies in another, a search finds what going up finds. -/
theorem map_locate_eq_of_no_nesting
    (h : Faithful host manifest memory)
    (hapart : ∀ inner outer, IsRoot host manifest inner → IsRoot host manifest outer →
      inner.startsWith outer = true → inner.Same outer)
    (path : Path) :
    (((locate manifest memory path).value host).1).map (·.root.components) =
      (walk host manifest path).elim (.error ⟨path, manifest⟩) (.ok ·.root.components) := by
  cases hwalk : walk host manifest path with
  | none =>
      rw [locate_of_walk_eq_none hhost hmanifest h hwalk]
      rfl
  | some found =>
      obtain ⟨project, hproject, -, hroot, hunder⟩ :=
        locate_of_walk_eq_some hhost hmanifest h hwalk
      have hsame : found.root.components = project.root.components :=
        hapart found.root project.root (isRoot_of_walk hwalk) hroot hunder
      rw [hproject, Option.elim_some, hsame]
      rfl

end

/--
After any earlier searches in a fixed tree, a search fails exactly where going up finds nothing.
A project that it finds covers the path, has its manifest and covers the project that going up
finds.  So where no project lies in another, what a search finds does not depend on the searches
before it.
-/
theorem located_agrees_with_ascend
    (hhost : Coherent host manifest)
    (hmanifest : (Path.mk manifest).components = [.name name]) :
    (∀ earlier path,
      ((∃ error, located host manifest earlier path = .error error) ↔
        (ascend manifest path).value host = none) ∧
      ∀ project, located host manifest earlier path = .ok project →
        project.covers path = true ∧ IsRoot host manifest project.root ∧
        ∃ found, (ascend manifest path).value host = some found ∧
          project.covers found.root = true) ∧
    ((∀ inner outer, IsRoot host manifest inner → IsRoot host manifest outer →
        inner.startsWith outer = true → inner.Same outer) →
      ∀ earlier other path,
        (located host manifest earlier path).map (·.root.components) =
          (located host manifest other path).map (·.root.components)) := by
  have hlead : (Path.mk manifest).lead = .none :=
    Path.lead_eq_none_of_components_eq_name hmanifest
  constructor
  · intro earlier path
    have hfaithful := faithful_remembered host manifest earlier
    rw [value_ascend]
    cases hwalk : walk host manifest path with
    | none =>
        have herror : located host manifest earlier path = .error ⟨path, manifest⟩ :=
          locate_of_walk_eq_none hhost hlead hfaithful hwalk
        rw [herror]
        exact ⟨iff_of_true ⟨_, rfl⟩ rfl, by simp⟩
    | some found =>
        obtain ⟨project, hproject, hcovers, hroot, hunder⟩ :=
          locate_of_walk_eq_some hhost hlead hfaithful hwalk
        rw [located, hproject]
        refine ⟨iff_of_false (by simp) (by simp), ?_⟩
        rintro other hother
        obtain rfl := Except.ok.inj hother
        exact ⟨hcovers, hroot, found, rfl, hunder⟩
  · intro hapart earlier other path
    rw [located, located,
      map_locate_eq_of_no_nesting hhost hlead (faithful_remembered host manifest earlier) hapart,
      map_locate_eq_of_no_nesting hhost hlead (faithful_remembered host manifest other) hapart]

/-- A tree in which just the given directories hold a manifest. -/
def treeOf (roots : List (List Path.Component)) : Host
  | .fileExists path => path.components ∈ roots.map (· ++ [.name "Cargo.toml"])
  | .isDirectory path => path.components ∈ roots
  | .readText _ => none
  | .variable _ => none
  | .currentDirectory => ⟨"/"⟩
  | .homeDirectory => none
  | .timeOfDay => default
  | .capture command => .error (.unknownProgram command.program)
  | .launch _ => .notStarted

theorem coherent_treeOf (roots : List (List Path.Component)) :
    Coherent (treeOf roots) "Cargo.toml" where
  fileExists_congr := by
    intro p q hsame
    simp only [treeOf, show p.components = q.components from hsame]
  isDirectory_congr := by
    intro p q hsame
    simp only [treeOf, show p.components = q.components from hsame]
  isDirectory_of_isRoot := by
    intro directory hroot
    have hlead : (Path.mk "Cargo.toml").lead = .none := by decide
    have hname : (Path.mk "Cargo.toml").components = [.name "Cargo.toml"] := by decide
    obtain ⟨root, hmem, hjoined⟩ := List.mem_map.1 (of_decide_eq_true hroot.holds)
    rw [Path.components_join directory hlead, hname] at hjoined
    rw [List.append_cancel_right hjoined] at hmem
    exact decide_eq_true hmem

/-- A tree with one project. -/
def sampleTree : Host :=
  treeOf [[.root, .name "w", .name "app"]]

theorem located_agrees_with_ascend_in_sampleTree :
    Coherent sampleTree "Cargo.toml" ∧
    (Path.mk "Cargo.toml").components = [.name "Cargo.toml"] ∧
    (∃ error, located sampleTree "Cargo.toml" [⟨"/w/a.rs"⟩, ⟨"/w/app"⟩] ⟨"/w/./a.rs"⟩ =
      .error error) ∧
    (located sampleTree "Cargo.toml" [⟨"/w/app/a.rs"⟩] ⟨"/w/app/src/lib.rs"⟩).map
        (·.root.components) =
      (located sampleTree "Cargo.toml" [] ⟨"/w/app/src/lib.rs"⟩).map (·.root.components) := by
  have hhost : Coherent sampleTree "Cargo.toml" := coherent_treeOf _
  have hmanifest : (Path.mk "Cargo.toml").components = [.name "Cargo.toml"] := by decide
  have hagrees := located_agrees_with_ascend hhost hmanifest
  refine ⟨hhost, hmanifest, (hagrees.1 _ _).1.2 (by decide +kernel), hagrees.2 ?_ _ _ _⟩
  intro inner outer hinner houter _
  have hinnerRoot := List.mem_singleton.1 (of_decide_eq_true (hhost.isDirectory_of_isRoot _ hinner))
  have houterRoot := List.mem_singleton.1 (of_decide_eq_true (hhost.isDirectory_of_isRoot _ houter))
  exact hinnerRoot.trans houterRoot.symm

/-- Where one project lies in another, the outer one is found if it was found before. -/
example :
    located (treeOf [[.root, .name "w"], [.root, .name "w", .name "app"]]) "Cargo.toml"
      [⟨"/w/a.rs"⟩] ⟨"/w/app/a.rs"⟩ = .ok ⟨⟨"/w"⟩⟩ := by
  decide +kernel

end ProjectSearch
end TargetLint
