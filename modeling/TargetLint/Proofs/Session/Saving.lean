import TargetLint.Proofs.Session.Serving

/-!
# Targets after a saved manifest

The targets with which an exchange is answered were listed by the build tool in that
exchange or in an earlier one of the run, or were at hand when the run began.  A saved
manifest of which the session takes notice renews them at once, so nothing listed
before is used any more.  A session that does not lint on saving takes no notice: what
it has listed stays in use.
-/

namespace TargetLint

namespace Session

/-- The build tool is asked for the targets at a root in the exchange and lists these. -/
def Lists
    (session : Session)
    (exchange : Exchange)
    (root : Path)
    (targets : List Target) :
    Prop :=
  ∃ project : Project, project.root.Same root ∧
    BuildCommand.metadata session.settings.program project ∈ session.calls exchange ∧
    targets = (BuildTool.targets session.settings project).value exchange.host

/-- In some exchange of the run, the build tool lists these targets at a root. -/
def ListedDuring
    (session : Session)
    (history : List Exchange)
    (root : Path)
    (targets : List Target) :
    Prop :=
  ∃ before exchange later, history = before ++ exchange :: later ∧
    (session.servedAll before).Lists exchange root targets

variable {session : Session} {exchange : Exchange} {history : List Exchange} {project : Project}
  {targets : List Target} {root : Path}

theorem ListedDuring.cons
    (h : (session.served exchange).ListedDuring history root targets) :
    session.ListedDuring (exchange :: history) root targets := by
  obtain ⟨before, origin, later, rfl, hlists⟩ := h
  exact ⟨exchange :: before, origin, later, rfl, hlists⟩

theorem Lists.listedDuring
    (h : session.Lists exchange root targets)
    (later : List Exchange) :
    session.ListedDuring (exchange :: later) root targets :=
  ⟨[], exchange, later, rfl, h⟩

/-- The command of a listing is in the log of the run. -/
theorem ListedDuring.callLog_ne_nil
    (h : session.ListedDuring history root targets) :
    session.callLog history ≠ [] := by
  obtain ⟨before, origin, later, rfl, project, -, hcommand, -⟩ := h
  induction before generalizing session with
  | nil => exact List.append_ne_nil_of_left_ne_nil (List.ne_nil_of_mem hcommand) _
  | cons first rest ih => exact List.append_ne_nil_of_right_ne_nil _ (ih hcommand)

theorem WorksOn.eq_targetsWith
    (h : session.WorksOn exchange project targets) :
    targets = (session.preparedFor project exchange.request).targetsWith exchange.host project := by
  obtain ⟨host, request⟩ := exchange
  cases request with
  | event event => exact h.2.2.2
  | hasResults other =>
      obtain ⟨rfl, htargets⟩ := h
      exact htargets
  | overview other => exact h.elim

theorem get?_of_preparedFor
    {request : SessionRequest}
    (h : (session.preparedFor project request).catalogs.get? root = some targets) :
    session.catalogs.get? root = some targets := by
  rcases session.preparedFor_cases project request with hself | ⟨-, -, -, hforget⟩
  · rwa [hself] at h
  · rw [hforget, forgetCatalog, PathTable.get?_erase] at h
    split at h
    · cases h
    · exact h

/-- Targets that an exchange works on are listed in it unless they were at hand. -/
theorem WorksOn.lists_or_atHand
    (h : session.WorksOn exchange project targets) :
    session.Lists exchange project.root targets ∨
      (session.preparedFor project exchange.request).catalogs.get? project.root = some targets := by
  have htargets := h.eq_targetsWith
  rcases (session.preparedFor project exchange.request).listing_cases project with
    ⟨known, hknown, -⟩ | ⟨hunknown, hlisting⟩
  · rw [targetsWith, hknown, Option.getD_some] at htargets
    rw [htargets]
    exact Or.inr hknown
  · rw [targetsWith, hunknown, Option.getD_none, settings_preparedFor] at htargets
    refine Or.inl ⟨project, Path.Same.refl project.root, ?_, htargets⟩
    rw [h.works.calls, hlisting, settings_preparedFor]
    exact List.mem_append_left _ (List.mem_singleton_self _)

theorem lists_or_get?_of_served
    (h : (session.served exchange).catalogs.get? root = some targets) :
    session.Lists exchange root targets ∨ session.catalogs.get? root = some targets := by
  rcases idle_or_worksOn session exchange with hidle | ⟨project, used, hworks⟩
  · rw [hidle.catalogs] at h
    exact Or.inr h
  · rw [hworks.works.catalogs] at h
    by_cases hroot : project.root.Same root
    · rw [if_pos hroot] at h
      obtain rfl := Option.some.inj h
      rcases hworks.lists_or_atHand with ⟨other, hother, hcommand, hvalue⟩ | hknown
      · exact Or.inl ⟨other, hother.trans hroot, hcommand, hvalue⟩
      · rw [← session.catalogs.get?_congr hroot]
        exact Or.inr (get?_of_preparedFor hknown)
    · rw [if_neg hroot] at h
      exact Or.inr h

/-- Targets that a run works on were listed in the run or at hand at its start. -/
theorem listedDuring_or_get?_of_worksOn
    (h : (session.servedAll history).WorksOn exchange project targets) :
    session.ListedDuring (history ++ [exchange]) project.root targets ∨
      session.catalogs.get? project.root = some targets := by
  induction history generalizing session with
  | nil =>
      rcases h.lists_or_atHand with hlists | hknown
      · exact Or.inl (hlists.listedDuring [])
      · exact Or.inr (get?_of_preparedFor hknown)
  | cons first later ih =>
      rcases ih h with hlisted | hknown
      · exact Or.inl hlisted.cons
      · rcases lists_or_get?_of_served hknown with hlists | hold
        · exact Or.inl (hlists.listedDuring _)
        · exact Or.inr hold

section

variable {host : Host} {path : Path}
  (hmanifest : path.fileName? = some session.settings.manifest)
  (hfound : (session.found ⟨host, .save path⟩).1 = .ok project)
  (hwanted : session.settings.lintOnSave = true)

include hmanifest hfound hwanted

theorem worksOn_save :
    session.WorksOn ⟨host, .event (.save path)⟩ project
      (session.targetsFor host project (.save path)) := by
  have hlook : ¬ session.Ignores (.save path) := by
    rw [Ignores, hwanted, isManifest, decide_eq_true hmanifest]
    exact Bool.noConfusion
  exact ⟨hlook, rfl, hfound, rfl⟩

/-- The saved manifest's project has its targets listed at once. -/
theorem lists_save :
    session.Lists ⟨host, .event (.save path)⟩ project.root
      (session.targetsFor host project (.save path)) := by
  rcases (worksOn_save hmanifest hfound hwanted).lists_or_atHand with hlists | hknown
  · exact hlists
  · have hisManifest : session.isManifest path = true := decide_eq_true hmanifest
    rw [preparedFor, prepared, if_pos hisManifest, forgetCatalog, PathTable.get?_erase,
      if_pos (Path.Same.refl project.root)] at hknown
    cases hknown

theorem listedDuring_of_worksOn_after_save
    {later : List Exchange}
    {other : Project}
    (hroot : other.root.Same project.root)
    (h : (session.servedAll (⟨host, .event (.save path)⟩ :: later)).WorksOn exchange other
      targets) :
    session.ListedDuring (⟨host, .event (.save path)⟩ :: (later ++ [exchange])) other.root
      targets := by
  have hlists := lists_save hmanifest hfound hwanted
  have hcatalogs := (worksOn_save hmanifest hfound hwanted).works.catalogs other.root
  rw [if_pos hroot.symm] at hcatalogs
  have hlater : ((session.served ⟨host, .event (.save path)⟩).servedAll later).WorksOn exchange
      other targets := h
  rcases listedDuring_or_get?_of_worksOn hlater with hlisted | hknown
  · exact hlisted.cons
  · rw [hcatalogs] at hknown
    obtain ⟨lister, hlister, hcommand, hvalue⟩ := hlists
    rw [← Option.some.inj hknown]
    exact Lists.listedDuring ⟨lister, hlister.trans hroot.symm, hcommand, hvalue⟩ _

end

section

variable (hunwanted : session.settings.lintOnSave = false)

include hunwanted

theorem ignores_save (path : Path) : session.Ignores (.save path) := by
  rw [Ignores, hunwanted, Bool.false_and]

theorem WorksOn.preparedFor_eq
    (h : session.WorksOn exchange project targets) :
    session.preparedFor project exchange.request = session := by
  obtain ⟨host, request⟩ := exchange
  rcases session.preparedFor_cases project request with hself | ⟨path, rfl, -, -⟩
  · exact hself
  · exact absurd (ignores_save hunwanted path) h.1

theorem WorksOn.eq_of_get?
    {known : List Target}
    (h : session.WorksOn exchange project targets)
    (hknown : session.catalogs.get? project.root = some known) :
    targets = known := by
  rw [h.eq_targetsWith, h.preparedFor_eq hunwanted, targetsWith, hknown, Option.getD_some]

/-- Without linting on saving, what is listed once stays so for good. -/
theorem get?_servedAll_of_get?
    (h : session.catalogs.get? root = some targets)
    (history : List Exchange) :
    (session.servedAll history).catalogs.get? root = some targets := by
  induction history generalizing session with
  | nil => exact h
  | cons exchange later ih =>
      refine ih (by rw [settings_served, hunwanted]) ?_
      rcases idle_or_worksOn session exchange with hidle | ⟨project, used, hworks⟩
      · rw [hidle.catalogs, h]
      · rw [hworks.works.catalogs]
        split
        · rename_i hroot
          rw [← session.catalogs.get?_congr hroot] at h
          rw [hworks.eq_of_get? hunwanted h]
        · exact h

end

/--
The targets at a root whose manifest has been saved.  If the session lints on saving, the save has
them listed and works on that list, and so does everything after it, unless it works on a list of a
still later exchange.  If not, the save does nothing at all: a list that was at hand stays in use
for good, and where there was none, one that is in use was listed after the save.
-/
theorem targets_after_saved_manifest
    (session : Session)
    (host : Host)
    (path : Path)
    (project : Project)
    (hmanifest : path.fileName? = some session.settings.manifest)
    (hfound : (session.found ⟨host, .save path⟩).1 = .ok project) :
    (session.settings.lintOnSave = true →
      session.WorksOn ⟨host, .event (.save path)⟩ project
        (session.targetsFor host project (.save path)) ∧
      session.Lists ⟨host, .event (.save path)⟩ project.root
        (session.targetsFor host project (.save path)) ∧
      ∀ later exchange other targets, other.root.Same project.root →
        (session.servedAll (⟨host, .event (.save path)⟩ :: later)).WorksOn exchange other targets →
        session.ListedDuring (⟨host, .event (.save path)⟩ :: (later ++ [exchange])) other.root
          targets) ∧
    (session.settings.lintOnSave = false →
      session.calls ⟨host, .event (.save path)⟩ = [] ∧
      session.served ⟨host, .event (.save path)⟩ = session ∧
      ∀ later exchange other targets, other.root.Same project.root →
        (session.servedAll (⟨host, .event (.save path)⟩ :: later)).WorksOn exchange other targets →
        match session.catalogs.get? project.root with
        | some known => targets = known
        | none => session.ListedDuring (later ++ [exchange]) other.root targets) := by
  constructor
  · intro hwanted
    refine ⟨worksOn_save hmanifest hfound hwanted, lists_save hmanifest hfound hwanted, ?_⟩
    intro later exchange other targets hroot hworks
    exact listedDuring_of_worksOn_after_save hmanifest hfound hwanted hroot hworks
  · intro hunwanted
    have hignores := ignores_save hunwanted path
    have hserved : session.served ⟨host, .event (.save path)⟩ = session := by
      rw [served_event]
      exact (after_of_ignores hignores).1
    refine ⟨(idle_of_ignores hignores).calls, hserved, ?_⟩
    intro later exchange other targets hroot hworks
    have hlater : (session.servedAll later).WorksOn exchange other targets := by
      rw [← hserved]
      exact hworks
    rw [← session.catalogs.get?_congr hroot]
    cases hknown : session.catalogs.get? other.root with
    | some known =>
        have hkept := get?_servedAll_of_get? hunwanted hknown later
        exact hlater.eq_of_get? (by rw [settings_servedAll, hunwanted]) hkept
    | none =>
        rcases listedDuring_or_get?_of_worksOn hlater with hlisted | hold
        · exact hlisted
        · rw [hknown] at hold
          cases hold

/-- A session that has listed the targets of the project at `/a`. -/
def listedSample (lintOnSave : Bool) : Session :=
  (opened { Settings.default with lintOnSave := lintOnSave } none).servedAll
    [⟨pairHost, .event (.targets ⟨"/a/l"⟩)⟩]

/-- With linting on saving, what is replied after the save was listed in the save or later. -/
theorem targets_after_saved_manifest_of_listedSample :
    (∃ targets,
      ((listedSample true).served ⟨pairHost, .event (.save ⟨"/a/Cargo.toml"⟩)⟩).reply
          ⟨pairHost, .event (.targets ⟨"/a/l"⟩)⟩ = .answer (.targets (.ok targets)) ∧
        (listedSample true).ListedDuring
          [⟨pairHost, .event (.save ⟨"/a/Cargo.toml"⟩)⟩, ⟨pairHost, .event (.targets ⟨"/a/l"⟩)⟩]
          ⟨"/a"⟩ targets) ∧
      (listedSample false).calls ⟨pairHost, .event (.save ⟨"/a/Cargo.toml"⟩)⟩ = [] := by
  obtain ⟨hnoticed, hasked, hunnoticed⟩ :
      ((listedSample true).found ⟨pairHost, .save ⟨"/a/Cargo.toml"⟩⟩).1 = .ok ⟨⟨"/a"⟩⟩ ∧
      (((listedSample true).served ⟨pairHost, .event (.save ⟨"/a/Cargo.toml"⟩)⟩).found
        ⟨pairHost, .targets ⟨"/a/l"⟩⟩).1 = .ok ⟨⟨"/a"⟩⟩ ∧
      ((listedSample false).found ⟨pairHost, .save ⟨"/a/Cargo.toml"⟩⟩).1 = .ok ⟨⟨"/a"⟩⟩ := by
    decide +kernel
  have hname : (Path.mk "/a/Cargo.toml").fileName? = some "Cargo.toml" := by
    decide
  have hworks : ((listedSample true).served ⟨pairHost, .event (.save ⟨"/a/Cargo.toml"⟩)⟩).WorksOn
      ⟨pairHost, .event (.targets ⟨"/a/l"⟩)⟩ ⟨⟨"/a"⟩⟩ _ := ⟨id, rfl, hasked, rfl⟩
  refine ⟨⟨_, hworks.reply_targets, ?_⟩, ?_⟩
  · exact ((targets_after_saved_manifest _ _ _ _ hname hnoticed).1 rfl).2.2 [] _ _ _
      (Path.Same.refl _) hworks
  · exact ((targets_after_saved_manifest _ _ _ _ hname hunnoticed).2 rfl).1

/-- A saved manifest does not renew the targets of its project under every setting. -/
theorem not_forall_saved_manifest_renews_targets :
    ¬ ∀ (settings : Settings) (mode : Option CheckMode) (history : List Exchange) (host : Host)
      (path : Path) (project : Project) (later : List Exchange) (exchange : Exchange)
      (other : Project) (targets : List Target),
      path.fileName? = some settings.manifest →
      (((opened settings mode).servedAll history).found ⟨host, .save path⟩).1 = .ok project →
      other.root.Same project.root →
      (((opened settings mode).servedAll history).servedAll
        (⟨host, .event (.save path)⟩ :: later)).WorksOn exchange other targets →
      ((opened settings mode).servedAll history).ListedDuring
        (⟨host, .event (.save path)⟩ :: (later ++ [exchange])) other.root targets := by
  intro hrenews
  have hfound : ((listedSample false).found ⟨pairHost, .save ⟨"/a/Cargo.toml"⟩⟩).1 =
      .ok ⟨⟨"/a"⟩⟩ := by
    decide +kernel
  have hsilent : (listedSample false).callLog
      [⟨pairHost, .event (.save ⟨"/a/Cargo.toml"⟩)⟩,
        ⟨pairHost, .hasResults ⟨⟨"/a"⟩⟩⟩] = [] := by
    decide +kernel
  have hlisted := hrenews { Settings.default with lintOnSave := false } none _ _
    ⟨"/a/Cargo.toml"⟩ _ [] ⟨pairHost, .hasResults ⟨⟨"/a"⟩⟩⟩ _ _ rfl hfound
    (Path.Same.refl _) ⟨rfl, rfl⟩
  exact hlisted.callLog_ne_nil hsilent

end Session
end TargetLint
