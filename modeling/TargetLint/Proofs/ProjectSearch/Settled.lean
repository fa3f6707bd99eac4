import TargetLint.Proofs.History
import TargetLint.Proofs.ProjectSearch.OwnRoot

/-!
# Searches settle paths

However the files change between searches, a path is searched for only once: memory
answers from then on.  A project that was found stays the answer.  Other projects
around the path may be discovered later, but none of them is inside the one that was
found, for then the search that discovers it would have ended there; so they are all
less deep.  A path that belonged to no project belongs to the first one that a search
for another path discovers around it.
-/

namespace TargetLint

namespace Project

variable {inner outer : Project} {path : Path}

theorem covers_congr
    (project : Project)
    {p q : Path}
    (h : p.Same q) :
    project.covers p = project.covers q :=
  Path.startsWith_congr project.root h

theorem covers_of_covers_root
    (hroot : outer.covers inner.root = true)
    (hpath : inner.covers path = true) :
    outer.covers path = true :=
  Path.startsWith_iff.2 ((Path.startsWith_iff.1 hroot).trans (Path.startsWith_iff.1 hpath))

/-- Of two projects around a path, one that is not inside the other is less deep. -/
theorem depth_lt_of_not_covers_root
    (houter : outer.covers path = true)
    (hinner : inner.covers path = true)
    (hroot : inner.covers outer.root = false) :
    SearchMemory.depth outer < SearchMemory.depth inner := by
  have hunder : inner.root.startsWith outer.root = true := by
    rcases Path.startsWith_or_startsWith houter hinner with hcovers | hunder
    · exact absurd hcovers (Bool.eq_false_iff.1 hroot)
    · exact hunder
  by_contra hle
  have hsame : inner.root.Same outer.root :=
    Path.same_of_startsWith_of_length_le hunder (Nat.le_of_not_lt hle)
  exact Bool.eq_false_iff.1 hroot (Path.startsWith_of_same hsame.symm)

end Project

namespace SearchMemory

variable {memory later latest : SearchMemory} {path : Path} {project : Project}

theorem enclosing?_congr
    (memory : SearchMemory)
    {p q : Path}
    (h : p.Same q) :
    memory.enclosing? p = memory.enclosing? q := by
  simp only [enclosing?, Project.covers_congr _ h]

theorem isStray_congr
    (memory : SearchMemory)
    {p q : Path}
    (h : p.Same q) :
    memory.isStray p = memory.isStray q := by
  simp only [isStray, h.congr_right]

/-- A search for the path is answered from memory. -/
def Settles (memory : SearchMemory) (path : Path) : Prop :=
  (memory.enclosing? path).isSome = true ∨ memory.isStray path = true

theorem Settles.isStray_of_enclosing?_eq_none
    (h : memory.Settles path)
    (hnone : memory.enclosing? path = none) :
    memory.isStray path = true := by
  rcases h with hsome | hstray
  · simp [hnone] at hsome
  · exact hstray

theorem Settles.congr
    {p q : Path}
    (h : memory.Settles p)
    (hsame : p.Same q) :
    memory.Settles q := by
  rw [Settles, ← memory.enclosing?_congr hsame, ← memory.isStray_congr hsame]
  exact h

/-- What is remembered stays, and new projects come last and are inside none of those before. -/
structure Extends (memory later : SearchMemory) : Prop where
  projects : ∃ discovered, later.projects = memory.projects ++ discovered ∧
    ∀ project ∈ discovered, ∀ other ∈ memory.projects, other.covers project.root = false
  strays : memory.strays <+: later.strays

namespace Extends

theorem refl (memory : SearchMemory) : memory.Extends memory where
  projects := ⟨[], by simp⟩
  strays := List.prefix_refl _

theorem trans
    (h : memory.Extends later)
    (hlater : later.Extends latest) :
    memory.Extends latest := by
  obtain ⟨first, hfirst, houtside⟩ := h.projects
  obtain ⟨second, hsecond, hlatest⟩ := hlater.projects
  refine ⟨⟨first ++ second, by rw [hsecond, hfirst, List.append_assoc], ?_⟩,
    h.strays.trans hlater.strays⟩
  intro project hproject other hother
  rcases List.mem_append.1 hproject with hold | hnew
  · exact houtside project hold other hother
  · refine hlatest project hnew other ?_
    rw [hfirst]
    exact List.mem_append_left _ hother

theorem prefix_projects
    (h : memory.Extends later) :
    memory.projects <+: later.projects := by
  obtain ⟨discovered, hdiscovered, -⟩ := h.projects
  exact ⟨discovered, hdiscovered.symm⟩

/-- The deepest project around a path stays the deepest, as all newer ones are less deep. -/
theorem enclosing?_eq
    (h : memory.Extends later)
    (hproject : memory.enclosing? path = some project) :
    later.enclosing? path = some project := by
  obtain ⟨discovered, hdiscovered, houtside⟩ := h.projects
  obtain ⟨hmem, hcovers, -⟩ := enclosing?_spec hproject
  have hless : ∀ other ∈ discovered.filter (fun other => other.covers path),
      depth other < depth project := by
    intro other hother
    obtain ⟨hnew, hpath⟩ := List.mem_filter.1 hother
    exact Project.depth_lt_of_not_covers_root hpath hcovers (houtside other hnew project hmem)
  rw [enclosing?] at hproject
  rw [enclosing?, hdiscovered, List.filter_append]
  exact deepest?_append_of_forall_lt hproject hless

theorem isStray_of_isStray
    (h : memory.Extends later)
    (hstray : memory.isStray path = true) :
    later.isStray path = true := by
  obtain ⟨stray, hmem, hsame⟩ := List.any_eq_true.1 hstray
  exact List.any_eq_true.2 ⟨stray, h.strays.subset hmem, hsame⟩

theorem settles
    (h : memory.Extends later)
    (hsettles : memory.Settles path) :
    later.Settles path := by
  rcases hsettles with hsome | hstray
  · obtain ⟨project, hproject⟩ := Option.isSome_iff_exists.1 hsome
    exact Or.inl (by simp [h.enclosing?_eq hproject])
  · exact Or.inr (h.isStray_of_isStray hstray)

end Extends
end SearchMemory

namespace ProjectSearch

/-- What a search finds, given what is remembered before it. -/
def Search.found
    (manifest : String)
    (memory : SearchMemory)
    (search : Search) :
    Except NoManifest Project :=
  ((locate manifest memory search.path).value search.host).1

/-- What is remembered after a search. -/
def Search.remembered
    (manifest : String)
    (memory : SearchMemory)
    (search : Search) :
    SearchMemory :=
  ((locate manifest memory search.path).value search.host).2

/-- The search adds the project to those that are remembered. -/
def Search.Discovers
    (manifest : String)
    (memory : SearchMemory)
    (search : Search)
    (project : Project) : Prop :=
  (search.remembered manifest memory).projects = memory.projects ++ [project]

variable {manifest : String} {memory : SearchMemory} {search : Search} {searches : List Search}
  {host : Host} {path : Path} {project : Project}

theorem asked_locate_of_settles
    (h : memory.Settles path) :
    (locate manifest memory path).asked host = [] := by
  rw [locate]
  cases henclosing : memory.enclosing? path with
  | some project => rfl
  | none => simp [h.isStray_of_enclosing?_eq_none henclosing]

/-- Where memory answers, a project is found exactly if a remembered one is around the path. -/
theorem found_eq_ok_iff_of_settles
    (h : memory.Settles search.path) :
    search.found manifest memory = .ok project ↔ memory.enclosing? search.path = some project := by
  rw [Search.found, value_locate]
  cases henclosing : memory.enclosing? search.path with
  | some other => simp
  | none => simp [h.isStray_of_enclosing?_eq_none henclosing]

/-- A search adds no project or a single one, which is inside none of those before. -/
theorem projects_remembered_cases
    (manifest : String)
    (memory : SearchMemory)
    (search : Search) :
    (search.remembered manifest memory).projects = memory.projects ∨
      ∃ project, search.Discovers manifest memory project ∧
        ∀ other ∈ memory.projects, other.covers project.root = false := by
  have houtcome := locate_outcome search.host manifest memory search.path
  simp only [Search.Discovers, Search.remembered]
  generalize (locate manifest memory search.path).value search.host = result at houtcome ⊢
  cases houtcome with
  | known => exact Or.inl rfl
  | stray => exact Or.inl rfl
  | lost => exact Or.inl rfl
  | @discovered project hnone _ hwalk =>
      refine Or.inr ⟨project, rfl, ?_⟩
      intro other hother
      rw [← Bool.not_eq_true]
      intro hroot
      exact SearchMemory.enclosing?_eq_none_iff.1 hnone other hother
        (Project.covers_of_covers_root hroot (covers_of_walk hwalk))

theorem prefix_strays_remembered
    (manifest : String)
    (memory : SearchMemory)
    (search : Search) :
    memory.strays <+: (search.remembered manifest memory).strays := by
  have houtcome := locate_outcome search.host manifest memory search.path
  rw [Search.remembered]
  generalize (locate manifest memory search.path).value search.host = result at houtcome ⊢
  cases houtcome with
  | lost => exact List.prefix_append _ _
  | known => exact List.prefix_refl _
  | stray => exact List.prefix_refl _
  | discovered => exact List.prefix_refl _

theorem extends_remembered
    (manifest : String)
    (memory : SearchMemory)
    (search : Search) :
    memory.Extends (search.remembered manifest memory) where
  projects := by
    rcases projects_remembered_cases manifest memory search with hsame | ⟨project, hnew, houtside⟩
    · exact ⟨[], by simp [hsame]⟩
    · exact ⟨[project], hnew, by simpa using houtside⟩
  strays := prefix_strays_remembered manifest memory search

/-- A search that finds a project leaves it as the answer for its path. -/
theorem enclosing?_remembered_of_found_ok
    (h : search.found manifest memory = .ok project) :
    (search.remembered manifest memory).enclosing? search.path = some project :=
  enclosing?_of_locate_eq_ok h

/-- A search that finds no project leaves none around its path, which is a stray by then. -/
theorem stray_of_found_error
    {error : NoManifest}
    (h : search.found manifest memory = .error error) :
    (search.remembered manifest memory).enclosing? search.path = none ∧
      (search.remembered manifest memory).isStray search.path = true := by
  have houtcome := locate_outcome search.host manifest memory search.path
  rw [Search.found] at h
  rw [Search.remembered]
  generalize (locate manifest memory search.path).value search.host = result at houtcome h ⊢
  cases houtcome with
  | known => cases h
  | stray hnone hstray => exact ⟨hnone, hstray⟩
  | discovered => cases h
  | lost hnone => exact ⟨hnone, by simp [SearchMemory.isStray]⟩

theorem settles_remembered
    (manifest : String)
    (memory : SearchMemory)
    (search : Search) :
    (search.remembered manifest memory).Settles search.path := by
  cases hfound : search.found manifest memory with
  | ok project => exact Or.inl (by simp [enclosing?_remembered_of_found_ok hfound])
  | error error => exact Or.inr (stray_of_found_error hfound).2

/-- A search changes the answer for a path only by a discovery around it, where there was none. -/
theorem enclosing?_remembered_iff
    (manifest : String)
    (memory : SearchMemory)
    (search : Search) :
    (search.remembered manifest memory).enclosing? path = some project ↔
      memory.enclosing? path = some project ∨
        (memory.enclosing? path = none ∧ search.Discovers manifest memory project ∧
          project.covers path = true) := by
  have hextends := extends_remembered manifest memory search
  cases hbefore : memory.enclosing? path with
  | some other => simp [hextends.enclosing?_eq hbefore]
  | none =>
      constructor
      · intro hproject
        obtain ⟨hmem, hcovers, -⟩ := SearchMemory.enclosing?_spec hproject
        have hnew : project ∉ memory.projects := fun hold =>
          SearchMemory.enclosing?_eq_none_iff.1 hbefore project hold hcovers
        rcases projects_remembered_cases manifest memory search with hsame | ⟨found, hfound, -⟩
        · rw [hsame] at hmem
          exact absurd hmem hnew
        · rw [Search.Discovers] at hfound
          rw [hfound] at hmem
          rcases List.mem_append.1 hmem with hold | hlast
          · exact absurd hold hnew
          · obtain rfl := List.mem_singleton.1 hlast
            exact Or.inr ⟨rfl, hfound, hcovers⟩
      · rintro (hsome | ⟨-, hdiscovers, hcovers⟩)
        · cases hsome
        · exact SearchMemory.enclosing?_of_projects_eq_snoc hbefore hcovers hdiscovers

/-- What is remembered after searches, given what is remembered before them. -/
def rememberedFrom
    (manifest : String)
    (memory : SearchMemory)
    (searches : List Search) :
    SearchMemory :=
  searches.foldl (fun memory search => search.remembered manifest memory) memory

/-- One of the searches discovers the project, the first one around the path. -/
def FirstAround
    (manifest : String)
    (memory : SearchMemory)
    (searches : List Search)
    (path : Path)
    (project : Project) : Prop :=
  ∃ before search after, searches = before ++ search :: after ∧
    (rememberedFrom manifest memory before).enclosing? path = none ∧
    search.Discovers manifest (rememberedFrom manifest memory before) project ∧
    project.covers path = true

theorem rememberedFrom_append
    (manifest : String)
    (memory : SearchMemory)
    (searches others : List Search) :
    rememberedFrom manifest memory (searches ++ others) =
      rememberedFrom manifest (rememberedFrom manifest memory searches) others :=
  List.foldl_append

theorem rememberedFrom_snoc
    (manifest : String)
    (memory : SearchMemory)
    (searches : List Search)
    (last : Search) :
    rememberedFrom manifest memory (searches ++ [last]) =
      last.remembered manifest (rememberedFrom manifest memory searches) :=
  rememberedFrom_append manifest memory searches [last]

theorem extends_rememberedFrom
    (manifest : String)
    (memory : SearchMemory)
    (searches : List Search) :
    memory.Extends (rememberedFrom manifest memory searches) := by
  induction searches using List.reverseRecOn with
  | nil => exact SearchMemory.Extends.refl memory
  | append_singleton before last ih =>
      rw [rememberedFrom_snoc]
      exact ih.trans (extends_remembered manifest _ last)

theorem firstAround_snoc_iff
    {last : Search} :
    FirstAround manifest memory (searches ++ [last]) path project ↔
      FirstAround manifest memory searches path project ∨
        ((rememberedFrom manifest memory searches).enclosing? path = none ∧
          last.Discovers manifest (rememberedFrom manifest memory searches) project ∧
          project.covers path = true) := by
  constructor
  · rintro ⟨before, search, after, hsplit, hfirst⟩
    rcases snoc_eq_append_cons_iff.1 hsplit with ⟨rfl, rfl, -⟩ | ⟨between, -, hbefore⟩
    · exact Or.inr hfirst
    · exact Or.inl ⟨before, search, between, hbefore, hfirst⟩
  · rintro (⟨before, search, after, rfl, hfirst⟩ | hlast)
    · exact ⟨before, search, after ++ [last], by simp, hfirst⟩
    · exact ⟨searches, last, [], rfl, hlast⟩

/-- The project around a path is the one remembered before, or else the first one discovered. -/
theorem enclosing?_rememberedFrom_iff
    (manifest : String)
    (memory : SearchMemory)
    (searches : List Search) :
    (rememberedFrom manifest memory searches).enclosing? path = some project ↔
      memory.enclosing? path = some project ∨
        FirstAround manifest memory searches path project := by
  induction searches using List.reverseRecOn with
  | nil => simp [rememberedFrom, FirstAround]
  | append_singleton before last ih =>
      rw [rememberedFrom_snoc, enclosing?_remembered_iff, ih, firstAround_snoc_iff, or_assoc]

/-- From nothing remembered, no project is ever discovered inside one that was found earlier. -/
theorem pairwise_projects_rememberedThrough
    (manifest : String)
    (searches : List Search) :
    (rememberedThrough manifest searches).projects.Pairwise fun earlier later =>
      earlier.covers later.root = false := by
  induction searches using List.reverseRecOn with
  | nil => exact List.Pairwise.nil
  | append_singleton before last ih =>
      have hlast : rememberedThrough manifest (before ++ [last]) =
          last.remembered manifest (rememberedThrough manifest before) :=
        rememberedThrough_snoc manifest before last
      rw [hlast]
      rcases projects_remembered_cases manifest (rememberedThrough manifest before) last with
        hsame | ⟨project, hnew, houtside⟩
      · rw [hsame]
        exact ih
      · rw [Search.Discovers] at hnew
        rw [hnew, List.pairwise_append]
        exact ⟨ih, List.pairwise_singleton _ _, by simpa using houtside⟩

/--
A path that was searched for once.  However the files change and whatever else is searched for in
between, a later search for it, in any spelling, asks the host nothing.  A project that was found is
found again.  If none was found, then one is found later exactly if a search in between discovers
it, as the first one around the path.  What is remembered of projects only grows at its end, and
from nothing remembered it never holds a root twice or one that is inside an earlier one.
-/
theorem searches_settle_paths
    (manifest : String)
    (memory : SearchMemory)
    (first : Search)
    (between : List Search)
    (again : Search)
    (hsame : first.path.Same again.path) :
    (locate manifest (rememberedFrom manifest memory (first :: between)) again.path).asked
      again.host = [] ∧
    (∀ project, first.found manifest memory = .ok project →
      again.found manifest (rememberedFrom manifest memory (first :: between)) = .ok project) ∧
    (∀ error, first.found manifest memory = .error error →
      ∀ project,
        again.found manifest (rememberedFrom manifest memory (first :: between)) = .ok project ↔
          FirstAround manifest (first.remembered manifest memory) between again.path project) ∧
    (∀ searches : List Search,
      (rememberedThrough manifest searches).projects.Pairwise fun earlier later =>
        ¬ earlier.root.Same later.root ∧ earlier.covers later.root = false) ∧
    (∀ searches others : List Search,
      (rememberedThrough manifest searches).projects <+:
        (rememberedThrough manifest (searches ++ others)).projects) := by
  have hsplit : rememberedFrom manifest memory (first :: between) =
      rememberedFrom manifest (first.remembered manifest memory) between :=
    rfl
  have hextends : (first.remembered manifest memory).Extends
      (rememberedFrom manifest memory (first :: between)) :=
    extends_rememberedFrom manifest _ between
  have hsettles :
      (rememberedFrom manifest memory (first :: between)).Settles again.path :=
    (hextends.settles (settles_remembered manifest memory first)).congr hsame
  refine ⟨asked_locate_of_settles hsettles, ?_, ?_, ?_, ?_⟩
  · intro project hproject
    have hfirst := hextends.enclosing?_eq (enclosing?_remembered_of_found_ok hproject)
    rw [found_eq_ok_iff_of_settles hsettles, ← SearchMemory.enclosing?_congr _ hsame]
    exact hfirst
  · intro error herror project
    have hnone := (stray_of_found_error herror).1
    rw [SearchMemory.enclosing?_congr _ hsame] at hnone
    rw [found_eq_ok_iff_of_settles hsettles, hsplit, enclosing?_rememberedFrom_iff, hnone]
    simp
  · intro searches
    refine (pairwise_projects_rememberedThrough manifest searches).imp ?_
    intro earlier later houtside
    refine ⟨?_, houtside⟩
    intro hroot
    exact Bool.eq_false_iff.1 houtside (Path.startsWith_of_same hroot.symm)
  · intro searches others
    have happend : rememberedThrough manifest (searches ++ others) =
        rememberedFrom manifest (rememberedThrough manifest searches) others :=
      rememberedFrom_append manifest .empty searches others
    rw [happend]
    exact (extends_rememberedFrom manifest _ others).prefix_projects

/--
A manifest appears after a file was found to belong to no project.  Once a search for another file
has discovered the project, the first one belongs to it, whatever has become of the manifest since.
-/
theorem stray_joins_project_found_in_between :
    (locate "Cargo.toml"
      (rememberedFrom "Cargo.toml" .empty
        [⟨treeOf [], ⟨"/w/app/a.rs"⟩⟩, ⟨nestedTree, ⟨"/w/b.rs"⟩⟩]) ⟨"/w//app/a.rs"⟩).asked
      (treeOf []) = [] ∧
    Search.found "Cargo.toml"
      (rememberedFrom "Cargo.toml" .empty
        [⟨treeOf [], ⟨"/w/app/a.rs"⟩⟩, ⟨nestedTree, ⟨"/w/b.rs"⟩⟩])
      ⟨treeOf [], ⟨"/w//app/a.rs"⟩⟩ = .ok ⟨⟨"/w"⟩⟩ := by
  have hsame : (Path.mk "/w/app/a.rs").Same ⟨"/w//app/a.rs"⟩ := by decide
  have hsettled := searches_settle_paths "Cargo.toml" .empty ⟨treeOf [], ⟨"/w/app/a.rs"⟩⟩
    [⟨nestedTree, ⟨"/w/b.rs"⟩⟩] ⟨treeOf [], ⟨"/w//app/a.rs"⟩⟩ hsame
  have herror : Search.found "Cargo.toml" .empty ⟨treeOf [], ⟨"/w/app/a.rs"⟩⟩ =
      .error ⟨⟨"/w/app/a.rs"⟩, "Cargo.toml"⟩ := by
    decide +kernel
  have hdiscovers : (Search.mk nestedTree ⟨"/w/b.rs"⟩).Discovers "Cargo.toml"
      (Search.remembered "Cargo.toml" .empty ⟨treeOf [], ⟨"/w/app/a.rs"⟩⟩) ⟨⟨"/w"⟩⟩ := by
    unfold Search.Discovers
    decide +kernel
  refine ⟨hsettled.1, (hsettled.2.2.1 _ herror _).2 ?_⟩
  exact ⟨[], _, [], rfl, by decide +kernel, hdiscovers, by decide +kernel⟩

end ProjectSearch
end TargetLint
