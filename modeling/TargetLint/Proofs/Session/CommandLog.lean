import TargetLint.Proofs.Session.Serving

/-!
# The commands of a session

A session runs the build tool for three things only: to learn its version, to list the
targets of a project and to lint a target.  Over a whole run the version is asked at
most once, right before the first lint.  The targets of a project are listed again
only when its manifest is saved.  All lints are made in one mode, and each of them
shows in the reply of its exchange.
-/

namespace TargetLint

/-- What a session runs the build tool for. -/
inductive Errand where
  | version
  | listing
  | lint
deriving DecidableEq, Repr

/-- What a command is run for, told by its first argument. -/
def Command.errand? (command : Command) : Option Errand :=
  match command.arguments.head? with
  | some "--version" => some .version
  | some "metadata" => some .listing
  | some "check" => some .lint
  | some "rustc" => some .lint
  | _ => none

namespace BuildCommand

@[simp] theorem errand?_version
    (settings : Settings)
    (project : Project) :
    (version settings project).errand? = some .version :=
  rfl

@[simp] theorem errand?_metadata
    (program : String)
    (project : Project) :
    (metadata program project).errand? = some .listing :=
  rfl

@[simp] theorem errand?_lint
    (settings : Settings)
    (mode : CheckMode)
    (target : Target) :
    (lint settings mode target).errand? = some .lint := by
  cases mode <;> rfl

end BuildCommand

namespace SessionRequest

/-- The request is answered without the build tool. -/
def needsNoTool : SessionRequest → Bool
  | .event (.project _) => true
  | .event (.clear _) => true
  | .overview _ => true
  | _ => false

/-- The request is answered with the targets of a project, none of which is linted. -/
def onlyLists : SessionRequest → Bool
  | .event (.run _) => true
  | .event (.targets _) => true
  | .hasResults _ => true
  | _ => false

end SessionRequest

namespace Session

variable {session : Session} {exchange : Exchange} {project : Project} {targets : List Target}
  {due : Option Target} {command : Command}

theorem errand?_checking
    (session : Session)
    (host : Host)
    (project : Project)
    (target : Target) :
    (session.checking host project target).map Command.errand? =
      (if session.mode.isSome then [] else [some .version]) ++ [some .lint] := by
  rw [checking, List.map_append]
  split <;> simp

/-- What an exchange runs commands for: a listing at most, then a lint if its reply tells one. -/
theorem errands_calls
    (session : Session)
    (exchange : Exchange) :
    ∃ listings : List (Option Errand), (listings = [] ∨ listings = [some .listing]) ∧
      (session.calls exchange).map Command.errand? =
        listings ++
          if (session.reply exchange).ran then
            (if session.mode.isSome then [] else [some .version]) ++ [some .lint]
          else
            [] := by
  rcases idle_or_worksOn session exchange with hidle | ⟨project, targets, hworks⟩
  · refine ⟨[], Or.inl rfl, ?_⟩
    rw [hidle.calls, hidle.ran]
    rfl
  · have h := hworks.works
    refine ⟨((session.preparedFor project exchange.request).listing project).map Command.errand?,
      ?_, ?_⟩
    · rcases (session.preparedFor project exchange.request).listing_cases project with
        ⟨-, -, hnone⟩ | ⟨-, hsome⟩
      · rw [hnone]
        exact Or.inl rfl
      · rw [hsome]
        exact Or.inr rfl
    · rw [h.calls, h.ran, List.map_append]
      cases session.dueFor? project targets exchange.request with
      | none => rfl
      | some target => rw [Option.elim_some, errand?_checking, Option.isSome_some, if_pos rfl]

theorem isSome_mode_served
    (session : Session)
    (exchange : Exchange) :
    (session.served exchange).mode.isSome =
      (session.mode.isSome || (session.reply exchange).ran) := by
  rcases idle_or_worksOn session exchange with hidle | ⟨project, targets, hworks⟩
  · rw [hidle.mode, hidle.ran, Bool.or_false]
  · rw [hworks.works.mode, hworks.works.ran]
    cases session.dueFor? project targets exchange.request with
    | none => exact (Bool.or_false _).symm
    | some target => exact (Bool.or_true _).symm

theorem eq_metadata_of_mem_listing
    (h : command ∈ session.listing project) :
    session.catalogs.get? project.root = none ∧
      command = BuildCommand.metadata session.settings.program project := by
  rcases session.listing_cases project with ⟨-, -, hnone⟩ | ⟨hunknown, hsome⟩
  · rw [hnone] at h
    cases h
  · rw [hsome] at h
    exact ⟨hunknown, List.mem_singleton.1 h⟩

theorem errand?_of_mem_checking
    {host : Host}
    {target : Target}
    (h : command ∈ session.checking host project target) :
    command.errand? = some .version ∨
      command = BuildCommand.lint session.settings (session.modeWith host project) target := by
  rw [checking] at h
  rcases List.mem_append.1 h with hversion | hlint
  · split at hversion
    · cases hversion
    · rw [List.mem_singleton.1 hversion]
      exact Or.inl (BuildCommand.errand?_version _ _)
  · exact Or.inr (List.mem_singleton.1 hlint)

/-- A command that is run lists the targets of the exchange's project or serves a check. -/
theorem exists_worksOn_of_mem_calls
    (h : command ∈ session.calls exchange) :
    ∃ project targets, session.WorksOn exchange project targets ∧
      (command ∈ (session.preparedFor project exchange.request).listing project ∨
        ∃ target, session.dueFor? project targets exchange.request = some target ∧
          command ∈ session.checking exchange.host project target) := by
  rcases idle_or_worksOn session exchange with hidle | ⟨project, targets, hworks⟩
  · rw [hidle.calls] at h
    cases h
  · refine ⟨project, targets, hworks, ?_⟩
    rw [hworks.works.calls] at h
    rcases List.mem_append.1 h with hlisting | hchecking
    · exact Or.inl hlisting
    · cases hdue : session.dueFor? project targets exchange.request with
      | none =>
          rw [hdue] at hchecking
          cases hchecking
      | some target =>
          rw [hdue] at hchecking
          exact Or.inr ⟨target, rfl, hchecking⟩

/-- A lint is made in the mode that the session knows from then on. -/
theorem exists_lint_of_mem_calls
    (h : command ∈ session.calls exchange)
    (herrand : command.errand? = some .lint) :
    ∃ mode target, command = BuildCommand.lint session.settings mode target ∧
      (session.served exchange).mode = some mode := by
  obtain ⟨project, targets, hworks, hlisting | ⟨target, hdue, hchecking⟩⟩ :=
    exists_worksOn_of_mem_calls h
  · rw [(eq_metadata_of_mem_listing hlisting).2, BuildCommand.errand?_metadata] at herrand
    cases herrand
  · have hmode := hworks.works.mode
    rw [hdue, Option.isSome_some, if_pos rfl] at hmode
    rcases errand?_of_mem_checking hchecking with hversion | hlint
    · rw [hversion] at herrand
      cases herrand
    · exact ⟨_, target, hlint, hmode⟩

/-- Targets that are listed stay listed, if not always the same. -/
theorem isSome_get?_served
    {root : Path}
    (h : (session.catalogs.get? root).isSome = true) :
    ((session.served exchange).catalogs.get? root).isSome = true := by
  rcases idle_or_worksOn session exchange with hidle | ⟨project, targets, hworks⟩
  · rw [hidle.catalogs]
    exact h
  · rw [hworks.works.catalogs]
    split
    · rfl
    · exact h

theorem isSome_get?_servedAll
    {root : Path}
    (h : (session.catalogs.get? root).isSome = true)
    (history : List Exchange) :
    ((session.servedAll history).catalogs.get? root).isSome = true := by
  induction history generalizing session with
  | nil => exact h
  | cons exchange later ih => exact ih (isSome_get?_served h)

/-- An exchange that lists targets works on them; there were none at hand when it turned to them. -/
theorem exists_worksOn_of_listing
    (h : command ∈ session.calls exchange)
    (herrand : command.errand? = some .listing) :
    ∃ project targets, session.WorksOn exchange project targets ∧
      command.directory = project.root ∧
      (session.preparedFor project exchange.request).catalogs.get? project.root = none := by
  obtain ⟨project, targets, hworks, hlisting | ⟨target, -, hchecking⟩⟩ :=
    exists_worksOn_of_mem_calls h
  · obtain ⟨hunknown, hcommand⟩ := eq_metadata_of_mem_listing hlisting
    exact ⟨project, targets, hworks, by rw [hcommand]; rfl, hunknown⟩
  · rcases errand?_of_mem_checking hchecking with hversion | hlint
    · rw [hversion] at herrand
      cases herrand
    · rw [hlint, BuildCommand.errand?_lint] at herrand
      cases herrand

/-- After a listing, the targets of that root are at hand. -/
theorem isSome_get?_of_listing
    (h : command ∈ session.calls exchange)
    (herrand : command.errand? = some .listing) :
    ((session.served exchange).catalogs.get? command.directory).isSome = true := by
  obtain ⟨project, targets, hworks, hdirectory, -⟩ := exists_worksOn_of_listing h herrand
  rw [hworks.works.catalogs, hdirectory, if_pos (Path.Same.refl project.root)]
  rfl

/-- Where targets are at hand, only a saved manifest of their project makes them be listed again. -/
theorem exists_save_of_listing
    (h : command ∈ session.calls exchange)
    (herrand : command.errand? = some .listing)
    (hknown : (session.catalogs.get? command.directory).isSome = true) :
    ∃ path project, exchange.request = .event (.save path) ∧
      path.fileName? = some session.settings.manifest ∧
      (session.found ⟨exchange.host, .save path⟩).1 = .ok project ∧
      project.root.Same command.directory := by
  obtain ⟨project, targets, hworks, hdirectory, hunknown⟩ := exists_worksOn_of_listing h herrand
  rw [hdirectory] at hknown
  obtain ⟨host, request⟩ := exchange
  rcases session.preparedFor_cases project request with hself | ⟨path, rfl, hmanifest, -⟩
  · rw [show session.preparedFor project request = session from hself] at hunknown
    rw [hunknown] at hknown
    cases hknown
  · refine ⟨path, project, rfl, of_decide_eq_true hmanifest, hworks.2.2.1, ?_⟩
    rw [hdirectory]
    exact Path.Same.refl project.root

theorem version_not_mem_errands
    (h : session.mode.isSome = true)
    (history : List Exchange) :
    some Errand.version ∉ (session.callLog history).map Command.errand? := by
  induction history generalizing session with
  | nil => exact List.not_mem_nil
  | cons exchange later ih =>
      obtain ⟨listings, hlistings, herrands⟩ := session.errands_calls exchange
      have hserved : (session.served exchange).mode.isSome = true := by
        rw [isSome_mode_served, h, Bool.true_or]
      rw [callLog, List.map_append, herrands, if_pos h]
      intro hmem
      rcases List.mem_append.1 hmem with hnow | hlater
      · rcases hlistings with rfl | rfl
        · split at hnow <;> simp at hnow
        · split at hnow <;> simp at hnow
      · exact ih hserved hlater

/--
A run lists targets only, or its first lint comes after listings and, if the mode was not known,
right after the only question for the version.
-/
theorem errands_callLog
    (session : Session)
    (history : List Exchange) :
    (∀ errand ∈ (session.callLog history).map Command.errand?, errand = some .listing) ∨
      ∃ listings later, (session.callLog history).map Command.errand? =
          listings ++ (if session.mode.isSome then [] else [some .version]) ++
            some .lint :: later ∧
        (∀ errand ∈ listings, errand = some .listing) ∧ some .version ∉ later := by
  induction history generalizing session with
  | nil => exact Or.inl fun errand h => absurd h List.not_mem_nil
  | cons exchange later ih =>
      obtain ⟨listings, hlistings, herrands⟩ := session.errands_calls exchange
      have hall : ∀ errand ∈ listings, errand = some .listing := by
        rcases hlistings with rfl | rfl <;> simp
      have hmode := session.isSome_mode_served exchange
      rw [callLog, List.map_append, herrands]
      cases hran : (session.reply exchange).ran with
      | true =>
          rw [hran, Bool.or_true] at hmode
          refine Or.inr ⟨listings, _, ?_, hall, version_not_mem_errands hmode later⟩
          rw [if_pos rfl]
          simp only [List.append_assoc, List.singleton_append]
      | false =>
          rw [hran, Bool.or_false] at hmode
          rw [if_neg Bool.false_ne_true, List.append_nil]
          rcases ih (session.served exchange) with hnone | ⟨more, rest, hlog, hmore, hrest⟩
          · left
            intro errand herrand
            rcases List.mem_append.1 herrand with hnow | hlater
            · exact hall errand hnow
            · exact hnone errand hlater
          · refine Or.inr ⟨listings ++ more, rest, ?_, ?_, hrest⟩
            · rw [hlog, hmode]
              simp only [List.append_assoc]
            · intro errand herrand
              rcases List.mem_append.1 herrand with hnow | hlater
              · exact hall errand hnow
              · exact hmore errand hlater

/-- All lints of a run are made in one mode, the known one if there is one. -/
theorem exists_mode_of_lints
    (session : Session)
    (history : List Exchange) :
    ∃ mode, (∀ known, session.mode = some known → mode = known) ∧
      ∀ command ∈ session.callLog history, command.errand? = some .lint →
        ∃ target, command = BuildCommand.lint session.settings mode target := by
  induction history generalizing session with
  | nil =>
      refine ⟨session.mode.getD default, ?_, fun command h => absurd h List.not_mem_nil⟩
      intro known hknown
      rw [hknown, Option.getD_some]
  | cons exchange later ih =>
      obtain ⟨mode, hmode, hlater⟩ := ih (session.served exchange)
      rw [settings_served] at hlater
      refine ⟨mode, fun known hknown => hmode known (mode_served_of_eq_some hknown), ?_⟩
      intro command hmem herrand
      rcases List.mem_append.1 hmem with hnow | hmore
      · obtain ⟨used, target, hcommand, hused⟩ := exists_lint_of_mem_calls hnow herrand
        exact ⟨target, by rw [hcommand, hmode used hused]⟩
      · exact hlater command hmore herrand

theorem count_lint_calls
    (session : Session)
    (exchange : Exchange) :
    ((session.calls exchange).map Command.errand?).count (some .lint) =
      (session.reply exchange).ran.toNat := by
  obtain ⟨listings, hlistings, herrands⟩ := session.errands_calls exchange
  have hnone : listings.count (some .lint) = 0 := by
    rcases hlistings with rfl | rfl <;> rfl
  rw [herrands, List.count_append, hnone]
  cases (session.reply exchange).ran <;> cases session.mode <;> rfl

/-- A lint that was run has results or was no success. -/
theorem toNat_ran (reply : SessionReply) :
    reply.ran.toNat = reply.isLinted.toNat + reply.isNotRun.toNat := by
  cases reply with
  | answer given =>
      cases given with
      | lint result =>
          match result with
          | .ok (some (.linted run)) => rfl
          | .ok (some .nothingToDo) => rfl
          | .ok none => rfl
          | .error (.notRun error) => rfl
          | .error (.noProject error) => rfl
          | .error (.noTarget path) => rfl
      | _ => rfl
  | _ => rfl

/-- The lints of a run are those that its replies tell of. -/
theorem count_lint_callLog
    (session : Session)
    (history : List Exchange) :
    ((session.callLog history).map Command.errand?).count (some .lint) =
      (session.replies history).countP SessionReply.isLinted +
        (session.replies history).countP SessionReply.isNotRun := by
  induction history generalizing session with
  | nil => rfl
  | cons exchange later ih =>
      rw [callLog, List.map_append, List.count_append, count_lint_calls, toNat_ran, ih, replies,
        List.countP_cons, List.countP_cons, Bool.toNat, Bool.toNat]
      simp only [Bool.cond_eq_ite]
      omega

theorem calls_of_needsNoTool
    (h : exchange.request.needsNoTool = true) :
    session.calls exchange = [] := by
  rcases idle_or_worksOn session exchange with hidle | ⟨project, targets, hworks⟩
  · exact hidle.calls
  · obtain ⟨host, request⟩ := exchange
    cases request with
    | event event =>
        have hneeds := hworks.2.1
        cases event with
        | project path => cases hneeds
        | clear path => cases hneeds
        | _ path => cases h
    | hasResults other => cases h
    | overview other => exact hworks.elim

theorem calls_of_onlyLists
    (h : exchange.request.onlyLists = true) :
    session.calls exchange = [] ∨
      ∃ project, session.calls exchange =
        [BuildCommand.metadata session.settings.program project] := by
  rcases idle_or_worksOn session exchange with hidle | ⟨project, targets, hworks⟩
  · exact Or.inl hidle.calls
  · have hcalls := hworks.works.calls
    have hdue : session.dueFor? project targets exchange.request = none := by
      obtain ⟨host, request⟩ := exchange
      cases request with
      | event event =>
          cases event with
          | run path => rfl
          | targets path => rfl
          | _ path => cases h
      | _ other => rfl
    rw [hdue, Option.elim_none, List.append_nil] at hcalls
    rcases (session.preparedFor project exchange.request).listing_cases project with
      ⟨-, -, hnone⟩ | ⟨-, hsome⟩
    · exact Or.inl (hcalls.trans hnone)
    · rw [hsome, settings_preparedFor] at hcalls
      exact Or.inr ⟨project, hcalls⟩

theorem count_listing_calls_le
    (session : Session)
    (exchange : Exchange) :
    ((session.calls exchange).map Command.errand?).count (some .listing) ≤ 1 := by
  obtain ⟨listings, hlistings, herrands⟩ := session.errands_calls exchange
  have hone : listings.count (some .listing) ≤ 1 := by
    rcases hlistings with rfl | rfl <;> decide
  rw [herrands, List.count_append]
  refine Nat.le_trans (Nat.le_of_eq ?_) hone
  cases (session.reply exchange).ran <;> cases session.mode <;> rfl

/--
What a session runs along any run, from any state.  The version is asked at most once, not at all if
the mode is known from the start, and right before the first lint.  All lints are made in one mode;
there are as many as replies with results or of a build tool that could not be run, and at most one
in an exchange.  The targets at a root are listed at most once in an exchange and again only in one
that saves a manifest which leads to that root.  Finding a project, clearing and overviews run
nothing; other requests that lint nothing list targets at most.
-/
theorem command_log_in_order
    (session : Session)
    (history : List Exchange) :
    ((∀ errand ∈ (session.callLog history).map Command.errand?, errand = some .listing) ∨
      ∃ listings later, (session.callLog history).map Command.errand? =
          listings ++ (if session.mode.isSome then [] else [some .version]) ++
            some .lint :: later ∧
        (∀ errand ∈ listings, errand = some .listing) ∧ some .version ∉ later) ∧
    (∃ mode, (∀ known, session.mode = some known → mode = known) ∧
      ∀ command ∈ session.callLog history, command.errand? = some .lint →
        ∃ target, command = BuildCommand.lint session.settings mode target) ∧
    ((session.callLog history).map Command.errand?).count (some .lint) =
      (session.replies history).countP SessionReply.isLinted +
        (session.replies history).countP SessionReply.isNotRun ∧
    (∀ before exchange later, history = before ++ exchange :: later →
      (((session.servedAll before).calls exchange).map Command.errand?).count (some .lint) ≤ 1 ∧
      (((session.servedAll before).calls exchange).map Command.errand?).count
        (some .listing) ≤ 1 ∧
      (exchange.request.needsNoTool = true → (session.servedAll before).calls exchange = []) ∧
      (exchange.request.onlyLists = true → (session.servedAll before).calls exchange = [] ∨
        ∃ project, (session.servedAll before).calls exchange =
          [BuildCommand.metadata session.settings.program project])) ∧
    (∀ before first between second later,
      history = before ++ first :: between ++ second :: later →
      ∀ command ∈ (session.servedAll before).calls first, command.errand? = some .listing →
      ∀ again ∈ (session.servedAll (before ++ first :: between)).calls second,
        again.errand? = some .listing → command.directory.Same again.directory →
        ∃ path project, second.request = .event (.save path) ∧
          path.fileName? = some session.settings.manifest ∧
          ((session.servedAll (before ++ first :: between)).found
            ⟨second.host, .save path⟩).1 = .ok project ∧
          project.root.Same again.directory) := by
  refine ⟨session.errands_callLog history, session.exists_mode_of_lints history,
    session.count_lint_callLog history, ?_, ?_⟩
  · rintro before exchange later -
    refine ⟨?_, count_listing_calls_le _ _, calls_of_needsNoTool, ?_⟩
    · rw [count_lint_calls]
      exact Bool.toNat_le _
    · intro hlists
      have hcalls : (session.servedAll before).calls exchange = [] ∨ _ := calls_of_onlyLists hlists
      rwa [settings_servedAll] at hcalls
  · rintro before first between second later - command hcommand herrand again hagain hlisting hsame
    have hfirst := isSome_get?_of_listing hcommand herrand
    have hknown : ((session.servedAll (before ++ first :: between)).catalogs.get?
        again.directory).isSome = true := by
      rw [← PathTable.get?_congr _ hsame, servedAll, List.foldl_append]
      exact isSome_get?_servedAll hfirst between
    obtain ⟨path, project, hrequest, hmanifest, hfound, hroot⟩ :=
      exists_save_of_listing hagain hlisting hknown
    rw [settings_servedAll] at hmanifest
    exact ⟨path, project, hrequest, hmanifest, hfound, hroot⟩

/-- A lint, a look at the targets and at the project, and then the project's manifest is saved. -/
def sampleRun : List Exchange :=
  [⟨pairHost, .event (.lint ⟨"/a/l"⟩)⟩,
    ⟨pairHost, .event (.targets ⟨"/a"⟩)⟩,
    ⟨pairHost, .event (.project ⟨"/a"⟩)⟩,
    ⟨pairHost, .event (.save ⟨"/a/Cargo.toml"⟩)⟩]

theorem command_log_of_sampleRun :
    ((opened .default none).callLog sampleRun).map Command.errand? =
        [some .listing, some .version, some .lint, some .listing, some .lint] ∧
      ((opened .default none).servedAll (sampleRun.take 2)).calls
        ⟨pairHost, .event (.project ⟨"/a"⟩)⟩ = [] ∧
      ∃ path project,
        SessionRequest.event (.save ⟨"/a/Cargo.toml"⟩) = .event (.save path) ∧
        path.fileName? = some "Cargo.toml" ∧
        (((opened .default none).servedAll (sampleRun.take 3)).found
          ⟨pairHost, .save path⟩).1 = .ok project ∧
        project.root.Same ⟨"/a"⟩ := by
  have horder := command_log_in_order (opened .default none) sampleRun
  obtain ⟨hlog, hlisted, hagain⟩ :
      ((opened .default none).callLog sampleRun).map Command.errand? =
        [some .listing, some .version, some .lint, some .listing, some .lint] ∧
      BuildCommand.metadata "cargo" ⟨⟨"/a"⟩⟩ ∈ ((opened .default none).servedAll []).calls
        ⟨pairHost, .event (.lint ⟨"/a/l"⟩)⟩ ∧
      BuildCommand.metadata "cargo" ⟨⟨"/a"⟩⟩ ∈
        ((opened .default none).servedAll (sampleRun.take 3)).calls
          ⟨pairHost, .event (.save ⟨"/a/Cargo.toml"⟩)⟩ := by
    decide +kernel
  refine ⟨hlog, ?_, ?_⟩
  · exact (horder.2.2.2.1 (sampleRun.take 2) _ (sampleRun.drop 3) rfl).2.2.1 rfl
  · exact horder.2.2.2.2 [] _ ((sampleRun.drop 1).take 2) _ [] rfl _ hlisted rfl _ hagain rfl
      (Path.Same.refl ⟨"/a"⟩)

end Session
end TargetLint
