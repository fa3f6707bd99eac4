import TargetLint.Proofs.LintLedger.Slice
import TargetLint.Proofs.ProjectSearch.Apart
import TargetLint.Proofs.Session.Journal

/-!
# Sessions that are alike for one root

Two sessions are alike for a root when they agree on all that concerns it: what is
remembered of it, its listed targets, the mode that its lints would have, and its slice
of the ledger.  Each handler of an event of that root's project gives the same result in
both sessions and leaves them alike, although the sessions may differ in everything that
concerns other roots.
-/

namespace TargetLint

/-- The host answers every question as the world does, except that for the time. -/
def ShowsWorld (world host : Host) : Prop :=
  ∀ question, question ≠ .timeOfDay → host question = world question

theorem ShowsWorld.walk_eq
    {world host : Host}
    (h : ShowsWorld world host)
    (manifest : String)
    (path : Path) :
    ProjectSearch.walk host manifest path = ProjectSearch.walk world manifest path := by
  have hkind : host (.isDirectory path) = world (.isDirectory path) :=
    h _ (by simp)
  have hexists : ∀ file, host (.fileExists file) = world (.fileExists file) :=
    fun _ => h _ (by simp)
  simp only [ProjectSearch.walk, hkind, hexists]

namespace Session

/-- Two sessions agree on all that concerns a root, in a world that stays as it is. -/
structure Alike (world : Host) (root : Path) (session other : Session) : Prop where
  settings : session.settings = other.settings
  projects : session.memory.projectsAt root = other.memory.projectsAt root
  targets : session.catalogs.get? root = other.catalogs.get? root
  mode : ∀ project, session.modeWith world project = other.modeWith world project
  ledger : session.ledger.slice root = other.ledger.slice root

/-- Two outcomes have the same result and leave sessions that are alike. -/
def Matches
    {α : Type}
    (world : Host)
    (root : Path)
    (outcome other : α × Session) : Prop :=
  outcome.1 = other.1 ∧ Alike world root outcome.2 other.2

section

variable {world host otherHost : Host} {root : Path} {session other : Session} {project : Project}

theorem Alike.refl
    (world : Host)
    (root : Path)
    (session : Session) :
    Alike world root session session :=
  ⟨rfl, rfl, rfl, fun _ => rfl, rfl⟩

theorem Alike.trans
    {last : Session}
    (h : Alike world root session other)
    (hlast : Alike world root other last) :
    Alike world root session last where
  settings := h.settings.trans hlast.settings
  projects := h.projects.trans hlast.projects
  targets := h.targets.trans hlast.targets
  mode := fun project => (h.mode project).trans (hlast.mode project)
  ledger := h.ledger.trans hlast.ledger

theorem Alike.slice_eq
    (h : Alike world root session other)
    {path : Path}
    (hpath : path.Same root) :
    session.ledger.slice path = other.ledger.slice path := by
  rw [session.ledger.slice_congr hpath, other.ledger.slice_congr hpath, h.ledger]

theorem modeWith_eq_of_showsWorld
    (h : ShowsWorld world host)
    (session : Session)
    (project : Project) :
    session.modeWith host project = session.modeWith world project := by
  have hversion := h (.capture (BuildCommand.version session.settings project)) (by simp)
  rw [modeWith, modeWith, hversion]

theorem targetsWith_eq_of_showsWorld
    (h : ShowsWorld world host)
    (session : Session)
    (project : Project) :
    session.targetsWith host project = session.targetsWith world project := by
  have hmetadata :=
    h (.capture (BuildCommand.metadata session.settings.program project)) (by simp)
  rw [targetsWith, targetsWith, hmetadata]

theorem lintReport_eq_of_showsWorld
    (h : ShowsWorld world host)
    (session : Session)
    (project : Project)
    (target : Target) :
    session.lintReport host project target = session.lintReport world project target := by
  have hcheck := h (.capture (BuildCommand.lint session.settings
    (session.modeWith world project) target)) (by simp)
  have hexists : (fun file => (Consult.question (.fileExists file)).value host) =
      fun file => (Consult.question (.fileExists file)).value world :=
    funext fun _ => h _ (by simp)
  have hread : ∀ text, (readStream session.settings project text).value host =
      (readStream session.settings project text).value world := by
    intro text
    simp only [readStream, Consult.value_bind, Consult.value_pure, Consult.value_filter]
    rw [hexists]
  rw [lintReport, lintReport, modeWith_eq_of_showsWorld h, hcheck]
  simp only [hread]

section Steps

variable (h : Alike world root session other) (hhost : ShowsWorld world host)
  (hother : ShowsWorld world otherHost) (hroot : project.root.Same root)

include h

theorem alike_withMode (mode : CheckMode) :
    Alike world root (session.withMode mode) (other.withMode mode) :=
  { h with mode := fun _ => rfl }

include hroot

theorem alike_forgetCatalog :
    Alike world root (session.forgetCatalog project) (other.forgetCatalog project) := by
  refine { h with targets := ?_, mode := h.mode }
  simp only [forgetCatalog, PathTable.get?_erase, if_pos hroot]

theorem alike_clear :
    Alike world root { session with ledger := session.ledger.clear project }
      { other with ledger := other.ledger.clear project } :=
  { h with ledger := LintLedger.slice_clear_congr h.ledger hroot, mode := h.mode }

include hhost hother

theorem matches_catalogOf :
    Matches world root ((session.catalogOf project).value host)
      ((other.catalogOf project).value otherHost) := by
  have hlisted : session.catalogs.get? project.root = other.catalogs.get? project.root := by
    rw [session.catalogs.get?_congr hroot, other.catalogs.get?_congr hroot, h.targets]
  have htargets : session.targetsWith host project = other.targetsWith otherHost project := by
    rw [targetsWith_eq_of_showsWorld hhost, targetsWith_eq_of_showsWorld hother, targetsWith,
      targetsWith, hlisted, h.settings]
  rw [value_catalogOf, value_catalogOf, hlisted, htargets]
  refine ⟨rfl, ?_⟩
  cases other.catalogs.get? project.root with
  | some targets => exact h
  | none =>
      refine { h with targets := ?_, mode := h.mode }
      simp only [PathTable.get?_set, if_pos hroot]

omit hroot in
theorem matches_checkTarget
    {target : Target}
    (htarget : target.root.Same root) :
    Matches world root ((session.checkTarget project target).value host)
      ((other.checkTarget project target).value otherHost) := by
  have hmode : session.modeWith host project = other.modeWith otherHost project := by
    rw [modeWith_eq_of_showsWorld hhost, modeWith_eq_of_showsWorld hother, h.mode]
  have hreport : session.lintReport host project target =
      other.lintReport otherHost project target := by
    rw [lintReport_eq_of_showsWorld hhost, lintReport_eq_of_showsWorld hother, lintReport,
      lintReport, h.mode, h.settings]
  rw [value_checkTarget, value_checkTarget, hmode, hreport]
  cases other.lintReport otherHost project target with
  | error error => exact ⟨rfl, alike_withMode h _⟩
  | ok report =>
      refine ⟨rfl, ?_⟩
      exact { alike_withMode h (other.modeWith otherHost project) with
        ledger := LintLedger.slice_enter_congr h.ledger htarget report.diagnostics _ _
        mode := fun _ => rfl }

end Steps

section Handlers

theorem root_of_mem_catalogOf
    (hfit : session.CatalogsFit)
    (hroot : project.root.Same root)
    {target : Target}
    (htarget : target ∈ ((session.catalogOf project).value host).1) :
    target.root.Same root := by
  rw [value_catalogOf] at htarget
  exact (hfit.root_of_mem_targetsWith htarget).trans hroot

variable (h : Alike world root session other) (hhost : ShowsWorld world host)
  (hother : ShowsWorld world otherHost) (hroot : project.root.Same root)
  (hfit : session.CatalogsFit)

include h hhost hother hroot hfit

theorem matches_checkFile (path : Path) :
    Matches world root (calledFor ((session.checkFile project path).value host))
      (calledFor ((other.checkFile project path).value otherHost)) := by
  obtain ⟨htargets, halike⟩ := matches_catalogOf h hhost hother hroot
  unfold checkFile
  rw [Consult.value_bind, Consult.value_bind]
  cases hchoice : Choice.forFile? path ((session.catalogOf project).value host).1 .lint with
  | none =>
      simp only [hchoice, ← htargets]
      exact ⟨rfl, halike⟩
  | some choice =>
      have hmem := Choice.mem_of_forFile? hchoice
      obtain ⟨hresult, hafter⟩ := matches_checkTarget halike hhost hother
        (root_of_mem_catalogOf hfit hroot hmem)
      simp only [hchoice, ← htargets]
      exact ⟨congrArg (Except.map some) hresult, hafter⟩

theorem matches_hasResults :
    Matches world root ((session.hasResults project).value host)
      ((other.hasResults project).value otherHost) := by
  obtain ⟨htargets, halike⟩ := matches_catalogOf h hhost hother hroot
  unfold hasResults
  rw [Consult.value_bind, Consult.value_bind]
  cases hchoice :
      Choice.forFile? project.root ((session.catalogOf project).value host).1 .lint with
  | none =>
      simp only [hchoice, ← htargets]
      exact ⟨LintLedger.hasAnyRun_eq_of_slice_eq (halike.slice_eq hroot), halike⟩
  | some choice =>
      have hmem := Choice.mem_of_forFile? hchoice
      simp only [hchoice, ← htargets]
      exact ⟨LintLedger.hasLinted_eq_of_slice_eq halike.ledger
        (root_of_mem_catalogOf hfit hroot hmem), halike⟩

theorem matches_checkOwnTarget (path : Path) :
    Matches world root ((session.checkOwnTarget project path).value host)
      ((other.checkOwnTarget project path).value otherHost) := by
  obtain ⟨htargets, halike⟩ := matches_catalogOf h hhost hother hroot
  unfold checkOwnTarget
  rw [Consult.value_bind, Consult.value_bind]
  cases hown : ownTarget? ((session.catalogOf project).value host).1 path with
  | none =>
      simp only [hown, ← htargets]
      exact ⟨rfl, halike⟩
  | some target =>
      have htarget := root_of_mem_catalogOf hfit hroot (List.mem_of_find?_eq_some hown)
      have hlinted := LintLedger.hasLinted_eq_of_slice_eq halike.ledger htarget
      obtain ⟨hresult, hafter⟩ := matches_checkTarget halike hhost hother htarget
      simp only [hown, ← htargets, ← hlinted]
      split
      · exact ⟨rfl, halike⟩
      · rw [Consult.value_bind, Consult.value_bind]
        exact ⟨congrArg (Except.map some) hresult, hafter⟩

/-- An event of the root's project is handled in the same way in both sessions. -/
theorem matches_handle (event : SessionEvent) :
    Matches world root (session.handle host project event)
      (other.handle otherHost project event) := by
  have hlint : ∀ {outcome otherOutcome : Except EventError (Option LintResult) × Session},
      Matches world root outcome otherOutcome →
        Matches world root (lintAnswer outcome) (lintAnswer otherOutcome) := by
    rintro outcome otherOutcome ⟨hresult, halike⟩
    exact ⟨congrArg SessionAnswer.lint hresult, halike⟩
  cases event with
  | lint path => exact hlint (matches_checkFile h hhost hother hroot hfit path)
  | save path =>
      have hmanifest : session.isManifest path = other.isManifest path := by
        rw [isManifest, isManifest, h.settings]
      rw [handle, handle, hmanifest]
      by_cases hsaved : other.isManifest path = true
      · rw [if_pos hsaved, if_pos hsaved]
        have hforgotten := (follows_forgetCatalog session host project).fit hfit
        exact hlint
          (matches_checkFile (alike_forgetCatalog h hroot) hhost hother hroot hforgotten path)
      · rw [if_neg hsaved, if_neg hsaved]
        exact hlint (matches_checkFile h hhost hother hroot hfit path)
  | activate path =>
      obtain ⟨hresults, halike⟩ := matches_hasResults h hhost hother hroot hfit
      have hlisted := (follows_hasResults session host project).fit hfit
      rw [handle, handle, hresults]
      split
      · exact hlint (matches_checkOwnTarget halike hhost hother hroot hlisted path)
      · exact hlint (matches_checkFile halike hhost hother hroot hlisted path)
  | run path =>
      obtain ⟨htargets, halike⟩ := matches_catalogOf h hhost hother hroot
      rw [handle, handle, htargets, halike.settings]
      exact ⟨rfl, halike⟩
  | targets path =>
      obtain ⟨htargets, halike⟩ := matches_catalogOf h hhost hother hroot
      rw [handle, handle, htargets]
      exact ⟨rfl, halike⟩
  | project path => exact ⟨rfl, h⟩
  | clear path =>
      have hcount := LintLedger.clearCount_eq_of_slice_eq (h.slice_eq hroot)
      rw [handle, handle, hcount]
      exact ⟨rfl, alike_clear h hroot⟩

end Handlers

end

end Session
end TargetLint
