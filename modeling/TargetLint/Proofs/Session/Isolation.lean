import TargetLint.Proofs.Session.Alike
import TargetLint.Proofs.Session.Reported

/-!
# Projects of one session do not interfere

Events of projects that lie apart from a root leave the session as it was for the root,
and events of the root's project are answered alike in sessions that are alike for it.
So the events of one project may be taken out of any run, with the same answers and the
same results for that project.
-/

namespace TargetLint

/-- In the world, going up from the path of the event leads to the project at the root. -/
def SessionEvent.isAt
    (world : Host)
    (manifest : String)
    (root : Path)
    (event : SessionEvent) :
    Bool :=
  (ProjectSearch.walk world manifest event.path).any fun project => decide (project.root.Same root)

/-- In the world, going up from the path of the event leads to a project apart from the root. -/
def SessionEvent.isApart
    (world : Host)
    (manifest : String)
    (root : Path)
    (event : SessionEvent) :
    Bool :=
  (ProjectSearch.walk world manifest event.path).any fun project => decide (project.root.Apart root)

theorem SessionEvent.walk_of_isAt
    {world : Host}
    {manifest : String}
    {root : Path}
    {event : SessionEvent}
    (h : event.isAt world manifest root = true) :
    ∃ project, ProjectSearch.walk world manifest event.path = some project ∧
      project.root.Same root := by
  obtain ⟨project, hwalk, hroot⟩ := (Option.any_eq_true _ _).1 h
  exact ⟨project, hwalk, of_decide_eq_true hroot⟩

theorem SessionEvent.walk_of_isApart
    {world : Host}
    {manifest : String}
    {root : Path}
    {event : SessionEvent}
    (h : event.isApart world manifest root = true) :
    ∃ project, ProjectSearch.walk world manifest event.path = some project ∧
      project.root.Apart root := by
  obtain ⟨project, hwalk, hroot⟩ := (Option.any_eq_true _ _).1 h
  exact ⟨project, hwalk, of_decide_eq_true hroot⟩

namespace Session

/-- The answers to the chosen events of a run. -/
def answersTo (chosen : SessionEvent → Bool) : Session → List Occurrence → List SessionAnswer
  | _, [] => []
  | session, occurrence :: later =>
      if chosen occurrence.event then
        session.answer occurrence :: answersTo chosen (session.after occurrence) later
      else
        answersTo chosen (session.after occurrence) later

variable {world : Host} {root : Path} {session other : Session} {occurrence : Occurrence}
  {project : Project}

/-- What a session knows of other projects lies apart from the root. -/
structure Separate (root : Path) (session : Session) : Prop where
  fit : session.CatalogsFit
  memory : session.memory.KeepsApart root
  library : session.ledger.LibraryFilesWithin

theorem separate_opened
    (settings : Settings)
    (mode : Option CheckMode)
    (root : Path) :
    Separate root (opened settings mode) where
  fit := (sound_opened settings mode).fit
  memory := SearchMemory.keepsApart_empty root
  library := LintLedger.libraryFilesWithin_empty

theorem libraryFilesWithin_after
    (h : Separate root session)
    (occurrence : Occurrence) :
    (session.after occurrence).ledger.LibraryFilesWithin := by
  rw [ledger_after]
  cases hrecorded : session.recorded? occurrence with
  | none => exact h.library
  | some event => exact h.library.after (staysWithin_of_recorded h.fit hrecorded)

theorem separate_after
    (h : Separate root session)
    (hhost : ShowsWorld world occurrence.host)
    (hwalk : ProjectSearch.walk world session.settings.manifest occurrence.event.path =
      some project)
    (hproject : project.root.Same root ∨ project.root.Apart root) :
    Separate root (session.after occurrence) := by
  rw [← hhost.walk_eq] at hwalk
  have hfound : (session.found occurrence).2.memory.KeepsApart root := by
    rw [found_snd]
    exact ProjectSearch.keepsApart_locate h.memory hwalk hproject
  refine ⟨fit_after h.fit occurrence, ?_, libraryFilesWithin_after h occurrence⟩
  refine after_of_follows (motive := fun next => next.memory.KeepsApart root) h.memory hfound ?_
  intro project effect next hfollows
  rw [hfollows.memory]
  exact hfound

/-- Where the tool's version does not depend on the directory, neither does the mode. -/
theorem modeWith_eq_of_version_eq
    (hversion : ∀ p q : Project, world (.capture (BuildCommand.version session.settings p)) =
      world (.capture (BuildCommand.version session.settings q)))
    (p q : Project) :
    session.modeWith world p = session.modeWith world q := by
  rw [modeWith, modeWith, hversion p q]

/-- What follows for a project apart from the root leaves the session as it was for the root. -/
theorem Follows.alike_of_apart
    {host : Host}
    {next : Session}
    {effect : Option LedgerEvent}
    (hfollows : Follows host project session effect next)
    (h : Separate root session)
    (hhost : ShowsWorld world host)
    (hversion : ∀ p q : Project, world (.capture (BuildCommand.version session.settings p)) =
      world (.capture (BuildCommand.version session.settings q)))
    (hapart : project.root.Apart root)
    (hstays : ∀ event, effect = some event → event.StaysWithin) :
    Alike world root next session := by
  have hmode : ∀ other, next.modeWith world other = session.modeWith world other := by
    intro other
    rcases hfollows.mode with hmode | hmode
    · rw [modeWith, modeWith, hmode, hfollows.settings]
    · rw [modeWith, hmode, Option.getD_some, modeWith_eq_of_showsWorld hhost]
      exact modeWith_eq_of_version_eq hversion project other
  have hledger : next.ledger.slice root = session.ledger.slice root := by
    rw [hfollows.ledger]
    cases heffect : effect with
    | none => rfl
    | some event =>
        have hown : event.root.Same project.root := hfollows.own h.fit event heffect
        exact LintLedger.slice_after_of_apart (hapart.congr_left (Path.Same.symm hown))
          (hstays event heffect) h.library
  refine ⟨hfollows.settings, ?_, hfollows.catalogs root hapart.not_same, hmode, hledger⟩
  rw [hfollows.memory]

/-- An event of a project apart from the root leaves the session as it was for the root. -/
theorem alike_after_of_apart
    (h : Separate root session)
    (hhost : ShowsWorld world occurrence.host)
    (hversion : ∀ p q : Project, world (.capture (BuildCommand.version session.settings p)) =
      world (.capture (BuildCommand.version session.settings q)))
    (hwalk : ProjectSearch.walk world session.settings.manifest occurrence.event.path =
      some project)
    (hapart : project.root.Apart root) :
    Alike world root (session.after occurrence) session := by
  have hstays : ∀ event, session.recorded? occurrence = some event → event.StaysWithin :=
    fun event => staysWithin_of_recorded h.fit
  rw [← hhost.walk_eq] at hwalk
  obtain ⟨⟨found, hfound, hfoundApart⟩, hprojects⟩ :=
    ProjectSearch.locate_of_apart h.memory hwalk hapart
  have hkeeps := ProjectSearch.keepsApart_locate h.memory hwalk (Or.inr hapart)
  have halike : Alike world root (session.found occurrence).2 session := by
    rw [found_snd]
    exact { Alike.refl world root session with projects := hprojects, mode := fun _ => rfl }
  have hseparate : Separate root (session.found occurrence).2 := by
    rw [found_snd]
    exact { h with memory := hkeeps }
  rcases session.after_cases occurrence with ⟨hafter | hafter, -⟩ | ⟨last, hlast, hfollows⟩
  · rw [hafter]
    exact Alike.refl world root session
  · rw [hafter]
    exact halike
  · have hsame : last = found := by
      rw [Session.found, value_findProject] at hlast
      dsimp only at hlast
      rw [hfound] at hlast
      exact (Except.ok.inj hlast).symm
    rw [← hsame] at hfoundApart
    refine Alike.trans (hfollows.alike_of_apart hseparate hhost ?_ hfoundApart hstays) halike
    rw [halike.settings]
    exact hversion

section Own

variable {host otherHost : Host} {event : SessionEvent} (h : Alike world root session other)
  (hsession : Separate root session) (hother : Separate root other)
  (hhost : ShowsWorld world host) (hotherHost : ShowsWorld world otherHost)
  (hwalk : ProjectSearch.walk world session.settings.manifest event.path = some project)
  (hroot : project.root.Same root)

include h hsession hother hhost hotherHost hwalk hroot

/-- Sessions that are alike for the root find the same project for an event of it. -/
theorem matches_found :
    ∃ found, (session.found ⟨host, event⟩).1 = .ok found ∧
      (other.found ⟨otherHost, event⟩).1 = .ok found ∧ found.root.Same root ∧
      Alike world root (session.found ⟨host, event⟩).2 (other.found ⟨otherHost, event⟩).2 := by
  have hwalkOther := hwalk
  rw [h.settings, ← hotherHost.walk_eq] at hwalkOther
  rw [← hhost.walk_eq] at hwalk
  obtain ⟨hfound, hprojects⟩ := ProjectSearch.locate_of_same hsession.memory hwalk hroot
  obtain ⟨hfoundOther, hprojectsOther⟩ :=
    ProjectSearch.locate_of_same hother.memory hwalkOther hroot
  refine ⟨(SearchMemory.deepest? (session.memory.projectsAt root)).getD project, ?_, ?_, ?_, ?_⟩
  · rw [found, value_findProject]
    dsimp only
    rw [hfound]
    rfl
  · rw [found, value_findProject]
    dsimp only
    rw [hfoundOther, h.projects]
    rfl
  · exact SearchMemory.root_of_deepest?_projectsAt session.memory hroot
  · rw [found_snd, found_snd]
    refine { h with projects := ?_, mode := h.mode }
    exact (hprojects.trans (by rw [h.projects])).trans hprojectsOther.symm

/-- Sessions that are alike for the root answer an event of its project alike. -/
theorem matches_event :
    Matches world root
      (session.answer ⟨host, event⟩, session.after ⟨host, event⟩)
      (other.answer ⟨otherHost, event⟩, other.after ⟨otherHost, event⟩) := by
  change Matches world root ((session.step event).value host) ((other.step event).value otherHost)
  have hignores := ignores_iff_of_settings_eq h.settings event
  by_cases hlook : session.Ignores event
  · rw [step_of_ignores hlook, step_of_ignores (hignores.1 hlook)]
    exact ⟨rfl, h⟩
  · have hlookOther : ¬ other.Ignores event := fun hother => hlook (hignores.2 hother)
    obtain ⟨found, hfound, hfoundOther, hfoundRoot, halike⟩ :=
      matches_found h hsession hother hhost hotherHost hwalk hroot
    rw [value_step hlook hfound, value_step hlookOther hfoundOther]
    exact matches_handle halike hhost hotherHost hfoundRoot (hsession.fit.found _) event

end Own

/-- Taking the events of other projects out of a run changes nothing for the root. -/
theorem matches_run
    {settings : Settings}
    (hversion : ∀ p q : Project, world (.capture (BuildCommand.version settings p)) =
      world (.capture (BuildCommand.version settings q)))
    {mixed alone : List Occurrence}
    (hmixedWorld : ∀ occurrence ∈ mixed, ShowsWorld world occurrence.host)
    (haloneWorld : ∀ occurrence ∈ alone, ShowsWorld world occurrence.host)
    (hmixed : ∀ occurrence ∈ mixed, occurrence.event.isAt world settings.manifest root = true ∨
      occurrence.event.isApart world settings.manifest root = true)
    (halone : alone.map Occurrence.event =
      (mixed.map Occurrence.event).filter (SessionEvent.isAt world settings.manifest root))
    (hsettings : session.settings = settings)
    (h : Alike world root session other)
    (hsession : Separate root session)
    (hother : Separate root other) :
    Matches world root
      (session.answersTo (SessionEvent.isAt world settings.manifest root) mixed,
        session.afterAll mixed)
      (other.answersTo (fun _ => true) alone, other.afterAll alone) := by
  induction mixed generalizing session other alone with
  | nil =>
      obtain rfl := List.map_eq_nil_iff.1 halone
      exact ⟨rfl, h⟩
  | cons occurrence later ih =>
      obtain ⟨hnow, hlaterWorld⟩ := List.forall_mem_cons.1 hmixedWorld
      obtain ⟨hbelongs, hlaterBelongs⟩ := List.forall_mem_cons.1 hmixed
      have hnext : (session.after occurrence).settings = settings := by
        rw [settings_after, hsettings]
      rw [List.map_cons, List.filter_cons] at halone
      by_cases hat : occurrence.event.isAt world settings.manifest root = true
      · -- Both runs have the event; their sessions stay alike.
        rw [if_pos hat] at halone
        obtain ⟨own, rest, rfl, hevent, hrest⟩ := List.map_eq_cons_iff.1 halone
        obtain ⟨hownWorld, hrestWorld⟩ := List.forall_mem_cons.1 haloneWorld
        obtain ⟨project, hwalk, hroot⟩ := SessionEvent.walk_of_isAt hat
        obtain ⟨host, event⟩ := occurrence
        obtain ⟨ownHost, ownEvent⟩ := own
        dsimp only at hevent hwalk
        subst hevent
        rw [← hsettings] at hwalk
        have hwalkOther := hwalk
        rw [h.settings] at hwalkOther
        obtain ⟨hanswer, halike⟩ := matches_event h hsession hother hnow hownWorld hwalk hroot
        obtain ⟨hanswers, hend⟩ := ih hlaterWorld hrestWorld hlaterBelongs hrest hnext halike
          (separate_after hsession hnow hwalk (Or.inl hroot))
          (separate_after hother hownWorld hwalkOther (Or.inl hroot))
        refine ⟨?_, hend⟩
        dsimp only at hanswer hanswers ⊢
        rw [answersTo, answersTo, if_pos hat, if_pos rfl, hanswer, hanswers]
      · -- Only the mixed run has the event; its session stays alike to what it was.
        rw [if_neg hat] at halone
        obtain ⟨project, hwalk, hapart⟩ :=
          SessionEvent.walk_of_isApart (hbelongs.resolve_left hat)
        rw [← hsettings] at hwalk hversion
        have halike := alike_after_of_apart hsession hnow hversion hwalk hapart
        rw [hsettings] at hversion
        obtain ⟨hanswers, hend⟩ := ih hlaterWorld haloneWorld hlaterBelongs halone hnext
          (halike.trans h) (separate_after hsession hnow hwalk (Or.inr hapart)) hother
        refine ⟨?_, hend⟩
        dsimp only at hanswers ⊢
        rw [answersTo, if_neg hat, hanswers]

/--
Projects do not interfere.  In a world in which only the clock moves on, and in which the version
of the build tool does not depend on the directory, take any run whose events belong to a root or
to projects apart from it, and a run with the events of the root alone.  The events of the root
are answered alike, and in the end the overview, the snapshot and what counts as linted are the
same for the root.
-/
theorem projects_do_not_interfere
    (settings : Settings)
    (mode : Option CheckMode)
    (world : Host)
    (root : Path)
    (mixed alone : List Occurrence)
    (hversion : ∀ p q : Project, world (.capture (BuildCommand.version settings p)) =
      world (.capture (BuildCommand.version settings q)))
    (hmixedWorld : ∀ occurrence ∈ mixed, ShowsWorld world occurrence.host)
    (haloneWorld : ∀ occurrence ∈ alone, ShowsWorld world occurrence.host)
    (hmixed : ∀ occurrence ∈ mixed, occurrence.event.isAt world settings.manifest root = true ∨
      occurrence.event.isApart world settings.manifest root = true)
    (halone : alone.map Occurrence.event =
      (mixed.map Occurrence.event).filter (SessionEvent.isAt world settings.manifest root)) :
    answersTo (SessionEvent.isAt world settings.manifest root) (opened settings mode) mixed =
        answersTo (fun _ => true) (opened settings mode) alone ∧
      (∀ project : Project, project.root.Same root →
        ((opened settings mode).afterAll mixed).overview project =
            ((opened settings mode).afterAll alone).overview project ∧
          ((opened settings mode).afterAll mixed).snapshot project =
            ((opened settings mode).afterAll alone).snapshot project ∧
          ((opened settings mode).afterAll mixed).ledger.hasAnyRun project.root =
            ((opened settings mode).afterAll alone).ledger.hasAnyRun project.root ∧
          ∀ path, ((opened settings mode).afterAll mixed).ledger.hasLintedEntry project.root path =
            ((opened settings mode).afterAll alone).ledger.hasLintedEntry project.root path) ∧
      (∀ target : Target, target.root.Same root →
        ((opened settings mode).afterAll mixed).ledger.hasLinted target =
          ((opened settings mode).afterAll alone).ledger.hasLinted target) := by
  have hseparate := separate_opened settings mode root
  obtain ⟨hanswers, halike⟩ := matches_run hversion hmixedWorld haloneWorld hmixed halone rfl
    (Alike.refl world root (opened settings mode)) hseparate hseparate
  refine ⟨hanswers, ?_, ?_⟩
  · intro project hroot
    have hslice := halike.slice_eq hroot
    have hwithin := LintLedger.within_eq_of_slice_eq hslice
    exact ⟨DiagnosticView.overview_eq_of_within_eq hwithin,
      DiagnosticView.snapshot_eq_of_within_eq hwithin,
      LintLedger.hasAnyRun_eq_of_slice_eq hslice,
      LintLedger.hasLintedEntry_eq_of_slice_eq hslice⟩
  · intro target hroot
    exact LintLedger.hasLinted_eq_of_slice_eq halike.ledger hroot

theorem showsWorld_sampleHost (time : TimeOfDay) :
    ShowsWorld (sampleHost default) (sampleHost time) := by
  intro question hquestion
  cases question with
  | timeOfDay => exact absurd rfl hquestion
  | _ => rfl

theorem sample_projects_do_not_interfere :
    answersTo (SessionEvent.isAt (sampleHost default) Settings.default.manifest ⟨"/a"⟩)
        (opened .default none)
        [⟨sampleHost ⟨9, 0, 0⟩, .lint ⟨"/b/src/lib.rs"⟩⟩,
          ⟨sampleHost ⟨9, 5, 3⟩, .activate ⟨"/a/src/lib.rs"⟩⟩,
          ⟨sampleHost ⟨9, 6, 0⟩, .clear ⟨"/b/src/lib.rs"⟩⟩] =
      answersTo (fun _ => true) (opened .default none)
        [⟨sampleHost ⟨7, 0, 0⟩, .activate ⟨"/a/src/lib.rs"⟩⟩] := by
  refine (projects_do_not_interfere .default none (sampleHost default) ⟨"/a"⟩ _ _
    (fun _ _ => rfl) ?_ ?_ ?_ ?_).1
  · intro occurrence hoccurrence
    simp only [List.mem_cons, List.not_mem_nil, or_false] at hoccurrence
    rcases hoccurrence with rfl | rfl | rfl <;> exact showsWorld_sampleHost _
  · intro occurrence hoccurrence
    rw [List.mem_singleton.1 hoccurrence]
    exact showsWorld_sampleHost _
  · intro occurrence hoccurrence
    simp only [List.mem_cons, List.not_mem_nil, or_false] at hoccurrence
    rcases hoccurrence with rfl | rfl | rfl
    · exact Or.inr (by decide +kernel)
    · exact Or.inl (by decide +kernel)
    · exact Or.inr (by decide +kernel)
  · decide +kernel

end Session
end TargetLint
