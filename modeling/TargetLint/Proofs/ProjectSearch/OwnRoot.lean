import TargetLint.Proofs.ProjectSearch.Agreement

/-!
# Directories that hold a manifest themselves

Going up from a directory that holds the manifest stops at once.  A search asks its
memory first, though, and looks at no file where memory answers.  So whether such a
directory is found as its own project depends on what earlier searches left behind:
it is, unless a project around it was found before it was, or unless it is remembered
as a stray from a time when no manifest was there.
-/

namespace TargetLint
namespace ProjectSearch

/-- A search with the host that is there when it is made. -/
structure Search where
  host : Host
  path : Path

/-- What is remembered after searches in a tree that may change between them. -/
def rememberedThrough (manifest : String) (searches : List Search) : SearchMemory :=
  searches.foldl
    (fun memory search => ((locate manifest memory search.path).value search.host).2)
    .empty

/-- What a search finds after other searches. -/
def foundAfter
    (manifest : String)
    (searches : List Search)
    (host : Host)
    (path : Path) :
    Except NoManifest Project :=
  ((locate manifest (rememberedThrough manifest searches) path).value host).1

variable {host : Host} {manifest name : String} {path : Path} {project : Project}
  {memory : SearchMemory} {searches : List Search}

theorem rememberedThrough_snoc
    (manifest : String)
    (searches : List Search)
    (last : Search) :
    rememberedThrough manifest (searches ++ [last]) =
      ((locate manifest (rememberedThrough manifest searches) last.path).value last.host).2 := by
  rw [rememberedThrough, List.foldl_append]
  rfl

/-- In a tree that stays as it is, these are the memories of searches with one host. -/
theorem rememberedThrough_of_forall_host_eq
    (h : ∀ search ∈ searches, search.host = host) :
    rememberedThrough manifest searches = remembered host manifest (searches.map Search.path) := by
  induction searches using List.reverseRecOn with
  | nil => rfl
  | append_singleton before last ih =>
      have hbefore := ih fun search hsearch => h search (List.mem_append_left _ hsearch)
      have hlast : last.host = host := h last (by simp)
      rw [rememberedThrough_snoc, hbefore, hlast, List.map_append, remembered, remembered,
        List.foldl_append]
      rfl

theorem mem_projects_or_walk_of_locate
    (h : project ∈ ((locate manifest memory path).value host).2.projects) :
    project ∈ memory.projects ∨ walk host manifest path = some project := by
  have houtcome := locate_outcome host manifest memory path
  generalize (locate manifest memory path).value host = result at houtcome h
  cases houtcome with
  | known => exact Or.inl h
  | stray => exact Or.inl h
  | lost => exact Or.inl h
  | discovered _ _ hwalk =>
      rcases List.mem_append.1 h with hold | hnew
      · exact Or.inl hold
      · rw [List.mem_singleton.1 hnew]
        exact Or.inr hwalk

/-- No project at the empty path comes to be remembered. -/
theorem components_ne_nil_of_mem_rememberedThrough
    (h : project ∈ (rememberedThrough manifest searches).projects) :
    project.root.components ≠ [] := by
  induction searches using List.reverseRecOn with
  | nil => cases h
  | append_singleton before last ih =>
      rw [rememberedThrough_snoc] at h
      rcases mem_projects_or_walk_of_locate h with hold | hwalk
      · exact ih hold
      · exact (isRoot_of_walk hwalk).nonempty

theorem faithful_rememberedThrough
    (h : ∀ search ∈ searches, search.host = host) :
    Faithful host manifest (rememberedThrough manifest searches) := by
  rw [rememberedThrough_of_forall_host_eq h]
  exact faithful_remembered host manifest _

/-- Going up from a directory that holds the manifest stops at once. -/
theorem walk_of_isRoot
    (hdirectory : host (.isDirectory path) = true)
    (hroot : IsRoot host manifest path) :
    walk host manifest path = some ⟨path⟩ := by
  have htext : path.text ≠ "" := mt Path.text_eq_empty_iff.1 hroot.nonempty
  obtain ⟨farther, hfarther⟩ : ∃ farther, candidates true path = path :: farther :=
    ⟨_, List.takeWhile_cons_of_pos (by simpa using htext)⟩
  rw [walk, hdirectory, hfarther, List.find?_cons_of_pos (by simpa using hroot.holds)]
  rfl

/-- Only a directory at the empty path covers the empty path. -/
theorem not_covers_of_text_eq_empty
    (hroot : project.root.components ≠ [])
    (htext : path.text = "") :
    ¬ project.covers path = true := by
  rw [Project.covers, Path.startsWith_iff, Path.text_eq_empty_iff.1 htext, List.prefix_nil]
  exact hroot

/-- Where remembered projects cover the path, the deepest of them is found. -/
theorem locate_of_covers
    (host : Host)
    (manifest : String)
    {around : Project}
    (haround : around ∈ memory.projects)
    (hcovers : around.covers path = true) :
    ∃ project ∈ memory.projects, ((locate manifest memory path).value host).1 = .ok project ∧
      project.covers path = true ∧
      ∀ other ∈ memory.projects, other.covers path = true →
        SearchMemory.depth other ≤ SearchMemory.depth project := by
  rw [value_locate]
  cases henclosing : memory.enclosing? path with
  | none => exact absurd hcovers (SearchMemory.enclosing?_eq_none_iff.1 henclosing around haround)
  | some project =>
      obtain ⟨hmem, hproject, hdeepest⟩ := SearchMemory.enclosing?_spec henclosing
      exact ⟨project, hmem, rfl, hproject, hdeepest⟩

theorem locate_of_remembers
    (h : memory.Remembers path) :
    ∃ project, ((locate manifest memory path).value host).1 = .ok project ∧
      project.root.Same path := by
  obtain ⟨project, henclosing, hsame⟩ := h.enclosing?_same (Path.Same.refl path)
  exact ⟨project, by rw [value_locate, henclosing], hsame⟩

/-- Where no remembered project covers the path, a stray is not searched for again. -/
theorem locate_of_not_covers
    (hcovers : ∀ other ∈ memory.projects, ¬ other.covers path = true) :
    ((locate manifest memory path).value host).1 =
      if memory.isStray path then
        .error ⟨path, manifest⟩
      else
        (walk host manifest path).elim (.error ⟨path, manifest⟩) .ok := by
  rw [value_locate, SearchMemory.enclosing?_eq_none_iff.2 hcovers]
  dsimp only
  split <;> rfl

/-- A path that is found at itself is remembered or was searched for afresh. -/
theorem remembers_or_unknown_of_locate
    (h : ((locate manifest memory path).value host).1 = .ok project)
    (hsame : project.root.Same path) :
    memory.Remembers path ∨
      (∀ other ∈ memory.projects, ¬ other.covers path = true) ∧ memory.isStray path = false := by
  by_cases hcovers : ∀ other ∈ memory.projects, ¬ other.covers path = true
  · refine Or.inr ⟨hcovers, ?_⟩
    rw [locate_of_not_covers hcovers] at h
    split at h
    · cases h
    · rename_i hstray
      exact Bool.eq_false_iff.2 hstray
  · push Not at hcovers
    obtain ⟨around, haround, hpath⟩ := hcovers
    obtain ⟨found, hfound, hlocated, -⟩ :=
      locate_of_covers host manifest haround hpath
    rw [h] at hlocated
    obtain rfl := Except.ok.inj hlocated
    exact Or.inl ⟨project, hfound, hsame⟩

/-- The empty path leads to no project, whatever the host says of it. -/
theorem foundAfter_of_text_eq_empty
    (htext : path.text = "") :
    foundAfter manifest searches host path = .error ⟨path, manifest⟩ := by
  have hwalk : walk host manifest path = none := by
    cases hwalk : walk host manifest path with
    | none => rfl
    | some found =>
        exact absurd (covers_of_walk hwalk)
          (not_covers_of_text_eq_empty (isRoot_of_walk hwalk).nonempty htext)
  rw [foundAfter, locate_of_not_covers, hwalk]
  · split <;> rfl
  · intro other hother
    exact not_covers_of_text_eq_empty (components_ne_nil_of_mem_rememberedThrough hother) htext

section

variable (hdirectory : host (.isDirectory path) = true) (hroot : IsRoot host manifest path)

include hdirectory hroot

theorem foundAfter_of_unknown
    (hcovers : ∀ other ∈ (rememberedThrough manifest searches).projects,
      ¬ other.covers path = true)
    (hstray : (rememberedThrough manifest searches).isStray path = false) :
    foundAfter manifest searches host path = .ok ⟨path⟩ := by
  rw [foundAfter, locate_of_not_covers hcovers, hstray, walk_of_isRoot hdirectory hroot]
  rfl

/-- In a tree that stays as it is, a directory that holds the manifest is no stray. -/
theorem isStray_eq_false_of_isRoot
    (hhost : Coherent host manifest)
    (hmanifest : (Path.mk manifest).components = [.name name])
    (htree : ∀ search ∈ searches, search.host = host) :
    (rememberedThrough manifest searches).isStray path = false :=
  (faithful_rememberedThrough htree).isStray_eq_false hhost
    (Path.lead_eq_none_of_components_eq_name hmanifest) (walk_of_isRoot hdirectory hroot)

/-- In such a tree it is found at itself where no other directory over it holds the manifest. -/
theorem foundAfter_of_lowest
    (hhost : Coherent host manifest)
    (hmanifest : (Path.mk manifest).components = [.name name])
    (htree : ∀ search ∈ searches, search.host = host)
    (hlowest : ∀ directory, IsRoot host manifest directory → path.startsWith directory = true →
      path.Same directory) :
    ∃ project, foundAfter manifest searches host path = .ok project ∧ project.root.Same path := by
  by_cases hcovers : ∀ other ∈ (rememberedThrough manifest searches).projects,
      ¬ other.covers path = true
  · have hstray := isStray_eq_false_of_isRoot hdirectory hroot hhost hmanifest htree
    exact ⟨⟨path⟩, foundAfter_of_unknown hdirectory hroot hcovers hstray, Path.Same.refl path⟩
  · push Not at hcovers
    obtain ⟨around, haround, hpath⟩ := hcovers
    have hsame : path.Same around.root :=
      hlowest around.root ((faithful_rememberedThrough htree).projects around haround) hpath
    exact locate_of_remembers ⟨around, haround, hsame.symm⟩

end

/--
A directory that holds the manifest, after any earlier searches.  It is found as its own project
exactly if it is not the empty path and either is remembered, or no remembered project covers it
and it is no remembered stray.  Remembered projects around it decide otherwise: the deepest of them
is found.  In a tree that stays as it is, it is no stray, so there it is found at itself wherever no
other directory over it holds the manifest.
-/
theorem root_found_at_itself_iff
    (manifest : String)
    (searches : List Search)
    (host : Host)
    (path : Path)
    (hdirectory : host (.isDirectory path) = true)
    (hholds : host (.fileExists (path.join ⟨manifest⟩)) = true) :
    ((∃ project, foundAfter manifest searches host path = .ok project ∧ project.root.Same path) ↔
      path.text ≠ "" ∧
        ((rememberedThrough manifest searches).Remembers path ∨
          (∀ other ∈ (rememberedThrough manifest searches).projects,
            ¬ other.covers path = true) ∧
          (rememberedThrough manifest searches).isStray path = false)) ∧
    (∀ around ∈ (rememberedThrough manifest searches).projects, around.covers path = true →
      ∃ project ∈ (rememberedThrough manifest searches).projects,
        foundAfter manifest searches host path = .ok project ∧ project.covers path = true ∧
        ∀ other ∈ (rememberedThrough manifest searches).projects, other.covers path = true →
          SearchMemory.depth other ≤ SearchMemory.depth project) ∧
    ((∀ other ∈ (rememberedThrough manifest searches).projects, ¬ other.covers path = true) →
      (rememberedThrough manifest searches).isStray path = true →
      foundAfter manifest searches host path = .error ⟨path, manifest⟩) ∧
    (∀ name, Coherent host manifest → (Path.mk manifest).components = [.name name] →
      (∀ search ∈ searches, search.host = host) → path.text ≠ "" →
      (rememberedThrough manifest searches).isStray path = false ∧
      ((∀ directory, IsRoot host manifest directory → path.startsWith directory = true →
          path.Same directory) →
        ∃ project, foundAfter manifest searches host path = .ok project ∧
          project.root.Same path)) := by
  have hroot : path.text ≠ "" → IsRoot host manifest path := fun htext =>
    ⟨mt Path.text_eq_empty_iff.2 htext, hholds⟩
  refine ⟨⟨?_, ?_⟩, ?_, ?_, ?_⟩
  · rintro ⟨project, hproject, hsame⟩
    refine ⟨?_, remembers_or_unknown_of_locate hproject hsame⟩
    intro htext
    rw [foundAfter_of_text_eq_empty htext] at hproject
    cases hproject
  · rintro ⟨htext, hremembers | ⟨hcovers, hstray⟩⟩
    · exact locate_of_remembers hremembers
    · exact ⟨⟨path⟩, foundAfter_of_unknown hdirectory (hroot htext) hcovers hstray,
        Path.Same.refl path⟩
  · intro around haround hcovers
    exact locate_of_covers host manifest haround hcovers
  · intro hcovers hstray
    rw [foundAfter, locate_of_not_covers hcovers, hstray]
    rfl
  · intro name hhost hmanifest htree htext
    exact ⟨isStray_eq_false_of_isRoot hdirectory (hroot htext) hhost hmanifest htree,
      foundAfter_of_lowest hdirectory (hroot htext) hhost hmanifest htree⟩

/-- A tree with one project in another. -/
def nestedTree : Host :=
  treeOf [[.root, .name "w"], [.root, .name "w", .name "app"]]

/-- The inner project is found at itself after the outer one was found, if it was found before. -/
theorem inner_root_found_at_itself :
    nestedTree (.isDirectory ⟨"/w/app"⟩) = true ∧
    nestedTree (.fileExists ((Path.mk "/w/app").join ⟨"Cargo.toml"⟩)) = true ∧
    (rememberedThrough "Cargo.toml"
      [⟨nestedTree, ⟨"/w/app/a.rs"⟩⟩, ⟨nestedTree, ⟨"/w/a.rs"⟩⟩]).isStray ⟨"/w/app"⟩ = false ∧
    ∃ project,
      foundAfter "Cargo.toml" [⟨nestedTree, ⟨"/w/app/a.rs"⟩⟩, ⟨nestedTree, ⟨"/w/a.rs"⟩⟩]
        nestedTree ⟨"/w/app"⟩ = .ok project ∧
      project.root.Same ⟨"/w/app"⟩ := by
  have hdirectory : nestedTree (.isDirectory ⟨"/w/app"⟩) = true := by decide
  have hholds : nestedTree (.fileExists ((Path.mk "/w/app").join ⟨"Cargo.toml"⟩)) = true := by
    decide
  have hmanifest : (Path.mk "Cargo.toml").components = [.name "Cargo.toml"] := by decide
  have hiff := root_found_at_itself_iff "Cargo.toml"
    [⟨nestedTree, ⟨"/w/app/a.rs"⟩⟩, ⟨nestedTree, ⟨"/w/a.rs"⟩⟩] nestedTree _ hdirectory hholds
  refine ⟨hdirectory, hholds, ?_, hiff.1.2 ⟨by decide, Or.inl ?_⟩⟩
  · exact (hiff.2.2.2 "Cargo.toml" (coherent_treeOf _) hmanifest (by simp) (by decide)).1
  · exact ⟨⟨⟨"/w/app"⟩⟩, by decide +kernel, Path.Same.refl _⟩

/-- A directory that holds the manifest is not always found as its own project. -/
theorem not_forall_root_found_at_itself :
    ¬ ∀ (host : Host) (manifest name : String) (searches : List Search) (path : Path),
      Coherent host manifest → (Path.mk manifest).components = [.name name] →
      (∀ search ∈ searches, search.host = host) →
      host (.isDirectory path) = true →
      host (.fileExists (path.join ⟨manifest⟩)) = true →
      ∃ project, foundAfter manifest searches host path = .ok project ∧
        project.root.Same path := by
  intro hitself
  have hmanifest : (Path.mk "Cargo.toml").components = [.name "Cargo.toml"] := by decide
  obtain ⟨project, hproject, hsame⟩ := hitself nestedTree "Cargo.toml" "Cargo.toml"
    [⟨nestedTree, ⟨"/w/a.rs"⟩⟩] ⟨"/w/app"⟩ (coherent_treeOf _) hmanifest (by simp) (by decide)
    (by decide)
  have houter : foundAfter "Cargo.toml" [⟨nestedTree, ⟨"/w/a.rs"⟩⟩] nestedTree ⟨"/w/app"⟩ =
      .ok ⟨⟨"/w"⟩⟩ := by
    decide +kernel
  rw [houter] at hproject
  obtain rfl := Except.ok.inj hproject
  revert hsame
  decide

end ProjectSearch
end TargetLint
