import TargetLint.Proofs.Session.CommandLog
import TargetLint.Proofs.Session.Saving

/-!
# A listing that fails

When the build tool cannot tell the targets of a project, the session works on none and
keeps this as it keeps a list.  So what is at hand for a root is what the last listing
there led to, be it a success or a failure.  After a failure nothing is linted in the
project and the build tool is not asked again, until the session takes notice of a saved
manifest; that save does what it would have done without the failure.
-/

namespace TargetLint

namespace Session

/-- What the build tool tells of the targets of a project. -/
def told
    (session : Session)
    (host : Host)
    (project : Project) :
    Except Metadata.Failure (List Metadata.Descriptor) :=
  Metadata.ofReply session.settings.manifest project
    (host (.capture (BuildCommand.metadata session.settings.program project)))

/-- The build tool is asked for the targets of the project in the exchange. -/
def Asks (session : Session) (exchange : Exchange) (project : Project) : Prop :=
  BuildCommand.metadata session.settings.program project ∈ session.calls exchange

/-- In some exchange of the run, the build tool is asked for the targets at a root. -/
def AskedDuring (session : Session) (history : List Exchange) (root : Path) : Prop :=
  ∃ before exchange later project, history = before ++ exchange :: later ∧
    project.root.Same root ∧ (session.servedAll before).Asks exchange project

/-- The exchange saves the manifest of the project at a root, and the session takes notice. -/
def Renews (session : Session) (exchange : Exchange) (root : Path) : Prop :=
  ∃ path project, exchange.request = .event (.save path) ∧
    session.settings.lintOnSave = true ∧ session.isManifest path = true ∧
    (session.found ⟨exchange.host, .save path⟩).1 = .ok project ∧ project.root.Same root

/-- In some exchange of the run, a noticed save renews the targets at a root. -/
def RenewedDuring (session : Session) (history : List Exchange) (root : Path) : Prop :=
  ∃ before exchange later, history = before ++ exchange :: later ∧
    (session.servedAll before).Renews exchange root

/-- Two sessions do the same in an exchange and differ afterwards only in where projects are. -/
structure Concur (first second : Session) (exchange : Exchange) : Prop where
  calls : first.calls exchange = second.calls exchange
  reply : first.reply exchange = second.reply exchange
  catalogs : ∀ root,
    (first.served exchange).catalogs.get? root = (second.served exchange).catalogs.get? root
  mode : (first.served exchange).mode = (second.served exchange).mode
  ledger : (first.served exchange).ledger = (second.served exchange).ledger

variable {session : Session} {exchange : Exchange} {history : List Exchange}
  {project other : Project} {targets known : List Target} {root : Path}

theorem WorksOn.asks_or_atHand
    (h : session.WorksOn exchange project targets) :
    session.Asks exchange project ∧
        targets = Catalog.ofListing project (session.told exchange.host project) ∨
      (session.preparedFor project exchange.request).catalogs.get? project.root = some targets ∧
        (session.preparedFor project exchange.request).listing project = [] := by
  have htargets := h.eq_targetsWith
  rcases (session.preparedFor project exchange.request).listing_cases project with
    ⟨known, hknown, hlisting⟩ | ⟨hunknown, hlisting⟩
  · rw [targetsWith, hknown, Option.getD_some] at htargets
    rw [htargets]
    exact Or.inr ⟨hknown, hlisting⟩
  · rw [targetsWith, hunknown, Option.getD_none, settings_preparedFor] at htargets
    refine Or.inl ⟨?_, htargets⟩
    rw [Asks, h.works.calls, hlisting, settings_preparedFor]
    simp

/-- An exchange that asks for the targets of a project works on what it is told. -/
theorem Asks.worksOn
    (h : session.Asks exchange project) :
    session.WorksOn exchange project
      (Catalog.ofListing project (session.told exchange.host project)) := by
  obtain ⟨other, targets, hworks, hlisting | ⟨target, -, hchecking⟩⟩ :=
    exists_worksOn_of_mem_calls h
  · obtain ⟨hunknown, hcommand⟩ := eq_metadata_of_mem_listing hlisting
    have hroot : project.root = other.root := congrArg Command.directory hcommand
    obtain rfl : project = other := congrArg Project.mk hroot
    have htargets := hworks.eq_targetsWith
    rw [targetsWith, hunknown, Option.getD_none, settings_preparedFor] at htargets
    rwa [htargets] at hworks
  · rcases errand?_of_mem_checking hchecking with hversion | hlint
    · simp at hversion
    · have herrand := congrArg Command.errand? hlint
      simp at herrand

/-- Where the build tool is not asked for targets, those at hand stay. -/
theorem get?_served_of_forall_not_asks
    (h : ∀ project : Project, project.root.Same root → ¬ session.Asks exchange project) :
    (session.served exchange).catalogs.get? root = session.catalogs.get? root := by
  rcases idle_or_worksOn session exchange with hidle | ⟨project, targets, hworks⟩
  · rw [hidle.catalogs]
  · rw [hworks.works.catalogs]
    split
    · rename_i hroot
      rcases hworks.asks_or_atHand with ⟨hasks, -⟩ | ⟨hknown, -⟩
      · exact absurd hasks (h project hroot)
      · rw [← session.catalogs.get?_congr hroot, get?_of_preparedFor hknown]
    · rfl

theorem servedAll_snoc
    (session : Session)
    (history : List Exchange)
    (last : Exchange) :
    session.servedAll (history ++ [last]) = (session.servedAll history).served last := by
  simp [servedAll]

theorem askedDuring_snoc_iff
    {last : Exchange} :
    session.AskedDuring (history ++ [last]) root ↔
      session.AskedDuring history root ∨
        ∃ project : Project, project.root.Same root ∧
          (session.servedAll history).Asks last project := by
  constructor
  · rintro ⟨before, exchange, later, project, hsplit, hroot, hasks⟩
    rcases snoc_eq_append_cons_iff.1 hsplit with ⟨rfl, rfl, -⟩ | ⟨between, -, hold⟩
    · exact Or.inr ⟨project, hroot, hasks⟩
    · exact Or.inl ⟨before, exchange, between, project, hold, hroot, hasks⟩
  · rintro (⟨before, exchange, later, project, rfl, hroot, hasks⟩ | ⟨project, hroot, hasks⟩)
    · exact ⟨before, exchange, later ++ [last], project, by simp, hroot, hasks⟩
    · exact ⟨history, last, [], project, rfl, hroot, hasks⟩

/-- Targets at hand were told in the last listing for their root, or were at hand all along. -/
theorem exists_last_listing
    (hnone : session.catalogs.get? root = none)
    (h : (session.servedAll history).catalogs.get? root = some targets) :
    ∃ before exchange later project, history = before ++ exchange :: later ∧
      project.root.Same root ∧ (session.servedAll before).Asks exchange project ∧
      ¬ (session.servedAll (before ++ [exchange])).AskedDuring later root ∧
      targets = Catalog.ofListing project (session.told exchange.host project) := by
  induction history using List.reverseRecOn with
  | nil =>
      rw [show session.servedAll [] = session from rfl, hnone] at h
      cases h
  | append_singleton history last ih =>
      rw [servedAll_snoc] at h
      by_cases hasked : ∃ project : Project, project.root.Same root ∧
          (session.servedAll history).Asks last project
      · obtain ⟨project, hroot, hasks⟩ := hasked
        refine ⟨history, last, [], project, rfl, hroot, hasks, ?_, ?_⟩
        · rintro ⟨before, exchange, later, -, hsplit, -⟩
          simp at hsplit
        · rw [hasks.worksOn.works.catalogs, if_pos hroot] at h
          rw [← Option.some.inj h, told, told, settings_servedAll]
      · rw [get?_served_of_forall_not_asks fun project hroot hasks =>
          hasked ⟨project, hroot, hasks⟩] at h
        obtain ⟨before, exchange, later, project, rfl, hroot, hasks, hlast, htargets⟩ := ih h
        refine ⟨before, exchange, later ++ [last], project, by simp, hroot, hasks, ?_, htargets⟩
        have hsplit : before ++ exchange :: later = (before ++ [exchange]) ++ later := by simp
        rw [hsplit, servedAll, List.foldl_append] at hasked
        rw [askedDuring_snoc_iff]
        exact fun hor => hor.elim hlast hasked

section

variable (hknown : session.catalogs.get? root = some known)

include hknown

theorem WorksOn.eq_of_not_renews
    (h : session.WorksOn exchange project targets)
    (hroot : project.root.Same root)
    (hnot : ¬ session.Renews exchange root) :
    targets = known ∧ (session.preparedFor project exchange.request).listing project = [] := by
  have hself : session.preparedFor project exchange.request = session := by
    obtain ⟨host, request⟩ := exchange
    rcases session.preparedFor_cases project request with hself | ⟨path, rfl, hmanifest, -⟩
    · exact hself
    · have hlook : (session.settings.lintOnSave &&
          (session.isManifest path || isSource path)) = true :=
        Bool.eq_true_of_not_eq_false h.1
      rw [Bool.and_eq_true] at hlook
      exact absurd ⟨path, project, rfl, hlook.1, hmanifest, h.2.2.1, hroot⟩ hnot
  have htargets := h.eq_targetsWith
  rw [hself] at htargets ⊢
  rw [← session.catalogs.get?_congr hroot] at hknown
  rw [targetsWith, hknown, Option.getD_some] at htargets
  exact ⟨htargets, by rw [listing, hknown]; rfl⟩

theorem get?_served_of_not_renews
    (hnot : ¬ session.Renews exchange root) :
    (session.served exchange).catalogs.get? root = some known := by
  rcases idle_or_worksOn session exchange with hidle | ⟨project, targets, hworks⟩
  · rw [hidle.catalogs, hknown]
  · rw [hworks.works.catalogs]
    split
    · rename_i hroot
      rw [(hworks.eq_of_not_renews hknown hroot hnot).1]
    · exact hknown

theorem get?_servedAll_of_not_renewed
    (hnot : ¬ session.RenewedDuring history root) :
    (session.servedAll history).catalogs.get? root = some known := by
  induction history generalizing session with
  | nil => exact hknown
  | cons exchange later ih =>
      refine ih (get?_served_of_not_renews hknown ?_) ?_
      · exact fun hrenews => hnot ⟨[], exchange, later, rfl, hrenews⟩
      · rintro ⟨before, next, rest, rfl, hrenews⟩
        exact hnot ⟨exchange :: before, next, rest, rfl, hrenews⟩

end

theorem dueFor?_nil
    (session : Session)
    (project : Project)
    (request : SessionRequest) :
    session.dueFor? project [] request = none := by
  have hchoice : ∀ path, Choice.forFile? path [] .lint = none := fun path => rfl
  cases request with
  | event event =>
      cases event with
      | activate path =>
          rw [dueFor?, LintLedger.due?, hchoice]
          cases session.ledger.hasMainResults project [] <;> rfl
      | _ => rfl
  | _ => rfl

theorem WorksOn.ledger_eq_of_not_due
    (h : session.WorksOn exchange project targets)
    (hdue : session.dueFor? project targets exchange.request = none) :
    (session.served exchange).ledger = session.ledger := by
  obtain ⟨host, request⟩ := exchange
  cases request with
  | event event =>
      obtain ⟨hlook, hneeds, hfound, rfl⟩ := h
      rw [served_event, ledger_after_of_not_due hlook hfound hneeds hdue]
  | hasResults other =>
      rw [served, serve, Consult.value_bind, value_hasResults]
      exact session.ledger_listed host other
  | overview other => exact h.elim

/-- While no targets are at hand for a root, its exchanges work on none and run nothing. -/
theorem WorksOn.idle_of_not_renewed
    {later : List Exchange}
    {next : Exchange}
    (h : (session.servedAll later).WorksOn next other targets)
    (hroot : other.root.Same root)
    (hknown : session.catalogs.get? root = some [])
    (hnot : ¬ session.RenewedDuring (later ++ [next]) root) :
    targets = [] ∧ (session.servedAll later).calls next = [] ∧
      ((session.servedAll later).reply next).ran = false := by
  have hbefore : ¬ session.RenewedDuring later root := by
    rintro ⟨before, saving, rest, rfl, hrenews⟩
    exact hnot ⟨before, saving, rest ++ [next], by simp, hrenews⟩
  have hnext : ¬ (session.servedAll later).Renews next root :=
    fun hrenews => hnot ⟨later, next, [], rfl, hrenews⟩
  obtain ⟨rfl, hlisting⟩ := h.eq_of_not_renews
    (get?_servedAll_of_not_renewed hknown hbefore) hroot hnext
  have hall := h.works
  rw [dueFor?_nil] at hall
  refine ⟨rfl, ?_, hall.ran⟩
  rw [hall.calls, hlisting]
  rfl

/-- What an exchange does in which the build tool fails to tell the targets it is asked for. -/
theorem Asks.served_of_error
    {failure : Metadata.Failure}
    (h : session.Asks exchange project)
    (hfailed : session.told exchange.host project = .error failure) :
    session.calls exchange = [BuildCommand.metadata session.settings.program project] ∧
      (∀ root, (session.served exchange).catalogs.get? root =
        if project.root.Same root then some [] else session.catalogs.get? root) ∧
      (session.served exchange).mode = session.mode ∧
      (session.served exchange).ledger = session.ledger ∧
      (session.reply exchange).ran = false := by
  have hworks : session.WorksOn exchange project [] := by
    have htold := h.worksOn
    rwa [hfailed] at htold
  have hdue := session.dueFor?_nil project exchange.request
  have hall := hworks.works
  rw [hdue] at hall
  refine ⟨?_, hall.catalogs, hall.mode, hworks.ledger_eq_of_not_due hdue, hall.ran⟩
  have hcalls := hall.calls
  rw [Option.elim_none, List.append_nil] at hcalls
  rw [Asks, hcalls] at h
  rw [hcalls]
  rcases (session.preparedFor project exchange.request).listing_cases project with
    ⟨-, -, hnone⟩ | ⟨-, hsome⟩
  · rw [hnone] at h
    cases h
  · rw [hsome, settings_preparedFor]

section

variable {host : Host} {path : Path} (hmanifest : session.isManifest path = true)

include hmanifest

theorem targetsFor_save :
    session.targetsFor host project (.save path) =
      Catalog.ofListing project (session.told host project) := by
  rw [targetsFor, prepared, if_pos hmanifest, targetsWith, forgetCatalog, PathTable.get?_erase,
    if_pos (Path.Same.refl project.root)]
  rfl

theorem listing_save :
    (session.preparedFor project (.event (.save path))).listing project =
      [BuildCommand.metadata session.settings.program project] := by
  rw [preparedFor, prepared, if_pos hmanifest, listing, forgetCatalog, PathTable.get?_erase,
    if_pos (Path.Same.refl project.root)]
  rfl

end

theorem Renews.exists_asks
    (h : session.Renews exchange root) :
    ∃ project : Project, project.root.Same root ∧ session.Asks exchange project := by
  obtain ⟨host, request⟩ := exchange
  obtain ⟨path, project, rfl, hwanted, hmanifest, hfound, hroot⟩ := h
  have hworks := worksOn_save (of_decide_eq_true hmanifest) hfound hwanted
  refine ⟨project, hroot, ?_⟩
  rw [Asks, hworks.works.calls, listing_save hmanifest]
  simp

/--
Two sessions with the same ledger that work on the same targets by an event, with the same
reports, answer it alike and end with the same ledger.
-/
theorem event_eq_of_worksOn
    {first second : Session}
    {host : Host}
    {event : SessionEvent}
    (hledger : first.ledger = second.ledger)
    (hreport : first.lintReport host project = second.lintReport host project)
    (hquiet : first.quietAnswer project targets event = second.quietAnswer project targets event)
    (hfirst : first.WorksOn ⟨host, .event event⟩ project targets)
    (hsecond : second.WorksOn ⟨host, .event event⟩ project targets) :
    first.answer ⟨host, event⟩ = second.answer ⟨host, event⟩ ∧
      (first.after ⟨host, event⟩).ledger = (second.after ⟨host, event⟩).ledger := by
  obtain ⟨hlook, hneeds, hfound, htargets⟩ := hfirst
  obtain ⟨hlook', -, hfound', htargets'⟩ := hsecond
  have hdue : first.ledger.due? project (first.targetsFor host project event) event =
      second.ledger.due? project (second.targetsFor host project event) event := by
    rw [hledger, ← htargets, ← htargets']
  cases hdue' : second.ledger.due? project (second.targetsFor host project event) event with
  | none =>
      have hquiet' : first.answer ⟨host, event⟩ = second.answer ⟨host, event⟩ := by
        rw [answer_of_not_due hlook hfound (hdue.trans hdue'),
          answer_of_not_due hlook' hfound' hdue', ← htargets, ← htargets', hquiet]
      refine ⟨hquiet', ?_⟩
      rw [ledger_after_of_not_due hlook hfound hneeds (hdue.trans hdue'), hledger,
        ledger_after_of_not_due hlook' hfound' hneeds hdue']
  | some target =>
      cases hrun : second.lintReport host project target with
      | ok report =>
          obtain ⟨hanswer, hafter⟩ := event_of_due_of_report hlook hfound (hdue.trans hdue')
            ((congrFun hreport target).trans hrun)
          obtain ⟨hanswer', hafter'⟩ := event_of_due_of_report hlook' hfound' hdue' hrun
          exact ⟨hanswer.trans hanswer'.symm, by rw [hafter, hafter', hledger]⟩
      | error error =>
          obtain ⟨hanswer, hafter⟩ := event_of_due_of_error hlook hfound (hdue.trans hdue')
            ((congrFun hreport target).trans hrun)
          obtain ⟨hanswer', hafter'⟩ := event_of_due_of_error hlook' hfound' hdue' hrun
          exact ⟨hanswer.trans hanswer'.symm, by rw [hafter, hafter', hledger]⟩

/-- A noticed save does not depend on the targets that were at hand for its project. -/
theorem concur_save
    {first second : Session}
    {host : Host}
    {path : Path}
    (hsettings : first.settings = second.settings)
    (hmode : first.mode = second.mode)
    (hledger : first.ledger = second.ledger)
    (hcatalogs : ∀ root, ¬ project.root.Same root →
      first.catalogs.get? root = second.catalogs.get? root)
    (hwanted : second.settings.lintOnSave = true)
    (hmanifest : second.isManifest path = true)
    (hfirst : (first.found ⟨host, .save path⟩).1 = .ok project)
    (hsecond : (second.found ⟨host, .save path⟩).1 = .ok project) :
    first.Concur second ⟨host, .event (.save path)⟩ := by
  have hwanted' : first.settings.lintOnSave = true := by
    rw [hsettings, hwanted]
  have hmanifest' : first.isManifest path = true := by
    rw [isManifest, hsettings]
    exact hmanifest
  have hworks := worksOn_save (of_decide_eq_true hmanifest') hfirst hwanted'
  have hworks' := worksOn_save (of_decide_eq_true hmanifest) hsecond hwanted
  have htargets : first.targetsFor host project (.save path) =
      second.targetsFor host project (.save path) := by
    rw [targetsFor_save hmanifest', targetsFor_save hmanifest, told, told, hsettings]
  have hmodeWith : first.modeWith host project = second.modeWith host project := by
    rw [modeWith, modeWith, hmode, hsettings]
  have hreport : first.lintReport host project = second.lintReport host project := by
    funext target
    rw [lintReport, lintReport, hmodeWith, hsettings]
  have hchecking : first.checking host project = second.checking host project := by
    funext target
    rw [checking, checking, hmodeWith, hmode, hsettings]
  rw [htargets] at hworks
  have hevent := event_eq_of_worksOn hledger hreport rfl hworks hworks'
  have hfirstWorks := works_of_event hworks.1 rfl hfirst
  have hsecondWorks := works_of_event hworks'.1 rfl hsecond
  rw [htargets, hledger] at hfirstWorks
  constructor
  case calls =>
    rw [hfirstWorks.calls, hsecondWorks.calls, listing_save hmanifest', listing_save hmanifest,
      hchecking, hsettings]
  case reply => rw [reply_event, reply_event, hevent.1]
  case catalogs =>
    intro root
    rw [hfirstWorks.catalogs, hsecondWorks.catalogs]
    split
    · rfl
    · rename_i hroot
      exact hcatalogs root hroot
  case mode => rw [hfirstWorks.mode, hsecondWorks.mode, hmode, hmodeWith]
  case ledger => rw [served_event, served_event, hevent.2]

/-- The session after a run from its beginning. -/
def reached
    (settings : Settings)
    (mode : Option CheckMode)
    (history : List Exchange) :
    Session :=
  (opened settings mode).servedAll history

theorem reached_append
    (settings : Settings)
    (mode : Option CheckMode)
    (history later : List Exchange) :
    reached settings mode (history ++ later) = (reached settings mode history).servedAll later := by
  simp [reached, servedAll]

theorem settings_reached
    (settings : Settings)
    (mode : Option CheckMode)
    (history : List Exchange) :
    (reached settings mode history).settings = settings :=
  settings_servedAll _ history

/--
A failed listing is kept like a list.  What is at hand for a root is what the last listing there
led to: the targets of a reply that could be read, or none.  Once a listing has failed, every
exchange that needs the targets of that root works on none of them, runs nothing and asks nothing,
until a noticed save of the manifest.  That save asks again, and if it comes next, it does what it
would have done without the failure.
-/
theorem failed_listing_kept_until_save
    (settings : Settings)
    (mode : Option CheckMode)
    (history : List Exchange) :
    (∀ root targets, (reached settings mode history).catalogs.get? root = some targets →
      ∃ before exchange later project, history = before ++ exchange :: later ∧
        project.root.Same root ∧
        (reached settings mode before).Asks exchange project ∧
        ¬ (reached settings mode (before ++ [exchange])).AskedDuring later root ∧
        match (reached settings mode before).told exchange.host project with
        | .ok descriptors => targets = Catalog.ofDescriptors project descriptors
        | .error _ => targets = []) ∧
    ∀ exchange project failure,
      (reached settings mode history).Asks exchange project →
      (reached settings mode history).told exchange.host project = .error failure →
      ((reached settings mode (history ++ [exchange])).catalogs.get? project.root = some [] ∧
        (reached settings mode (history ++ [exchange])).mode =
          (reached settings mode history).mode ∧
        (reached settings mode (history ++ [exchange])).ledger =
          (reached settings mode history).ledger) ∧
      (∀ later next other targets,
        ¬ (reached settings mode (history ++ [exchange])).RenewedDuring (later ++ [next])
          project.root →
        other.root.Same project.root →
        (reached settings mode (history ++ [exchange] ++ later)).WorksOn next other targets →
        targets = [] ∧
          (reached settings mode (history ++ [exchange] ++ later)).calls next = [] ∧
          ((reached settings mode (history ++ [exchange] ++ later)).reply next).ran = false) ∧
      (∀ later next,
        (reached settings mode (history ++ [exchange] ++ later)).Renews next project.root →
        ∃ other : Project, other.root.Same project.root ∧
          (reached settings mode (history ++ [exchange] ++ later)).Asks next other) ∧
      ∀ host path other, settings.lintOnSave = true → path.fileName? = some settings.manifest →
        ((reached settings mode history).found ⟨host, .save path⟩).1 = .ok other →
        ((reached settings mode (history ++ [exchange])).found ⟨host, .save path⟩).1 = .ok other →
        other.root.Same project.root →
        (reached settings mode (history ++ [exchange])).Concur (reached settings mode history)
          ⟨host, .event (.save path)⟩ := by
  constructor
  · intro root targets h
    obtain ⟨before, exchange, later, project, hsplit, hroot, hasks, hlast, rfl⟩ :=
      exists_last_listing (PathTable.get?_empty root) h
    refine ⟨before, exchange, later, project, hsplit, hroot, hasks, hlast, ?_⟩
    have htold : (reached settings mode before).told exchange.host project =
        (opened settings mode).told exchange.host project := by
      rw [told, told, settings_reached]
      rfl
    rw [htold]
    cases (opened settings mode).told exchange.host project <;> rfl
  · intro exchange project failure hasks hfailed
    obtain ⟨-, hcatalogs, hmode, hledger, -⟩ := hasks.served_of_error hfailed
    have hserved : reached settings mode (history ++ [exchange]) =
        (reached settings mode history).served exchange := reached_append settings mode history _
    have hknown : (reached settings mode (history ++ [exchange])).catalogs.get? project.root =
        some [] := by
      rw [hserved, hcatalogs, if_pos (Path.Same.refl project.root)]
    refine ⟨⟨hknown, by rw [hserved, hmode], by rw [hserved, hledger]⟩, ?_, ?_, ?_⟩
    · intro later next other targets hnot hroot hworks
      rw [reached_append] at hworks ⊢
      exact hworks.idle_of_not_renewed hroot hknown hnot
    · intro later next hrenews
      exact hrenews.exists_asks
    · intro host path other hwanted hmanifest hbefore hafter hroot
      rw [hserved] at hafter ⊢
      have hset := settings_reached settings mode history
      refine concur_save (settings_served _ exchange) hmode hledger ?_ (by rw [hset, hwanted]) ?_
        hafter hbefore
      · intro root hother
        rw [hcatalogs, if_neg]
        exact fun hsame => hother (hroot.trans hsame)
      · rw [isManifest, hset, decide_eq_true hmanifest]

/-- A host with the same project, in which the build tool cannot tell its targets. -/
def brokenHost : Host
  | .capture _ => .ok ⟨"", "no metadata", some 101⟩
  | question => pairHost question

/-- An exchange in which the targets at `/a` are asked for. -/
def askingAt (host : Host) : Exchange :=
  ⟨host, .event (.targets ⟨"/a/l"⟩)⟩

theorem listing_fails_at_brokenHost :
    (reached .default none []).Asks (askingAt brokenHost) ⟨⟨"/a"⟩⟩ ∧
      (reached .default none []).told brokenHost ⟨⟨"/a"⟩⟩ =
        .error (.exited (some 101) "no metadata") ∧
      (reached .default none [askingAt brokenHost]).WorksOn (askingAt pairHost) ⟨⟨"/a"⟩⟩
        ((reached .default none [askingAt brokenHost]).targetsWith pairHost ⟨⟨"/a"⟩⟩) := by
  have hfound :
      ((reached .default none [askingAt brokenHost]).found ⟨pairHost, .targets ⟨"/a/l"⟩⟩).1 =
        .ok ⟨⟨"/a"⟩⟩ := by
    decide +kernel
  refine ⟨?_, by decide +kernel, id, rfl, hfound, rfl⟩
  unfold Asks
  decide +kernel

/-- The tool fails once; afterwards it could tell the targets, but it is asked on a save only. -/
theorem failed_listing_kept_in_sample :
    (reached .default none [askingAt brokenHost]).catalogs.get? ⟨"/a"⟩ = some [] ∧
      (reached .default none [askingAt brokenHost]).calls (askingAt pairHost) = [] ∧
      (reached .default none [askingAt brokenHost]).Concur (reached .default none [])
        ⟨pairHost, .event (.save ⟨"/a/Cargo.toml"⟩)⟩ := by
  obtain ⟨hasks, htold, hworks⟩ := listing_fails_at_brokenHost
  obtain ⟨hbefore, hafter⟩ :
      ((reached .default none []).found ⟨pairHost, .save ⟨"/a/Cargo.toml"⟩⟩).1 =
        .ok ⟨⟨"/a"⟩⟩ ∧
      ((reached .default none [askingAt brokenHost]).found
        ⟨pairHost, .save ⟨"/a/Cargo.toml"⟩⟩).1 = .ok ⟨⟨"/a"⟩⟩ := by
    decide +kernel
  have hnot : ¬ (reached .default none [askingAt brokenHost]).RenewedDuring [askingAt pairHost]
      ⟨"/a"⟩ := by
    rintro ⟨before, exchange, later, hsplit, path, project, hrequest, -⟩
    have hmem : exchange ∈ [askingAt pairHost] := by
      rw [hsplit]
      simp
    rw [List.mem_singleton.1 hmem] at hrequest
    cases hrequest
  obtain ⟨⟨hkept, -⟩, hidle, -, hsave⟩ := (failed_listing_kept_until_save .default none []).2
    (askingAt brokenHost) ⟨⟨"/a"⟩⟩ _ hasks htold
  exact ⟨hkept, (hidle [] _ _ _ hnot (Path.Same.refl _) hworks).2.1,
    hsave pairHost ⟨"/a/Cargo.toml"⟩ ⟨⟨"/a"⟩⟩ rfl (by decide) hbefore hafter (Path.Same.refl _)⟩

/-- A listing that fails is not made up for by the next exchange that needs the targets. -/
theorem not_forall_failed_listing_retried :
    ¬ ∀ (settings : Settings) (mode : Option CheckMode) (history : List Exchange)
      (exchange next : Exchange) (project other : Project) (failure : Metadata.Failure)
      (targets : List Target),
      (reached settings mode history).Asks exchange project →
      (reached settings mode history).told exchange.host project = .error failure →
      other.root.Same project.root →
      (reached settings mode (history ++ [exchange])).WorksOn next other targets →
      (reached settings mode (history ++ [exchange])).Asks next other := by
  intro hretried
  obtain ⟨hasks, htold, hworks⟩ := listing_fails_at_brokenHost
  have hsilent : (reached .default none [askingAt brokenHost]).calls (askingAt pairHost) = [] := by
    decide +kernel
  have hagain : BuildCommand.metadata _ _ ∈
      (reached .default none [askingAt brokenHost]).calls (askingAt pairHost) :=
    hretried .default none [] _ _ ⟨⟨"/a"⟩⟩ ⟨⟨"/a"⟩⟩ _ _ hasks htold (Path.Same.refl _) hworks
  rw [hsilent] at hagain
  cases hagain

end Session
end TargetLint
