import TargetLint.Proofs.Catalog.FirstOccurrences
import TargetLint.Proofs.History
import Mathlib.Logic.Relation

/-!
# What a listing leads to

A file is served by the first target that starts at it, or else by the first target of the kind
that its purpose prefers, or else by the first of the other kind; how many targets there are of
the kind tells whether the choice was a clear one.  Of what a listing holds, much has no part in
this: repetitions, further tags of a library, kinds that are not supported, and examples and tests
that start elsewhere.  The main result describes the catalog of a listing and every choice from
it, and says that additions of these sorts change no choice.
-/

namespace TargetLint

/-- The kind that serves any file of a project where there is one of it. -/
def Purpose.preferred : Purpose → TargetKind
  | run => .binary
  | lint => .library

/-- The kind that serves any file of a project without the preferred kind. -/
def Purpose.fallback : Purpose → TargetKind
  | run => .library
  | lint => .binary

/-- A target that may serve a file: one that starts there, a library or a binary. -/
def Target.MayServe (target : Target) (path : Path) : Prop :=
  target.entry.Same path ∨ target.kind = .library ∨ target.kind = .binary

instance (target : Target) (path : Path) : Decidable (target.MayServe path) :=
  inferInstanceAs (Decidable (_ ∨ _ ∨ _))

/-- Whether a target may serve a file does not depend on how its paths are spelled. -/
theorem Target.mayServe_congr
    {path : Path}
    (a b : Target)
    (h : a.Same b) :
    decide (a.MayServe path) = decide (b.MayServe path) := by
  obtain ⟨-, hkind, hentry, -⟩ := h
  have hpath : a.entry.Same path ↔ b.entry.Same path :=
    ⟨hentry.symm.trans, hentry.trans⟩
  rw [decide_eq_decide, MayServe, MayServe, hkind, hpath]

namespace Choice

variable {path : Path} {targets : List Target} {purpose : Purpose} {kind : TargetKind}
  {choice : Choice}

/-- The choice that serves a file for a purpose. -/
inductive Serves (path : Path) (targets : List Target) (purpose : Purpose) : Choice → Prop
  | own
      {target : Target}
      (hfirst : IsFirst (fun target => target.entry.Same path) targets target) :
      Serves path targets purpose ⟨target, 1⟩
  | preferred
      {target : Target}
      (hforeign : ∀ other ∈ targets, ¬ other.entry.Same path)
      (hfirst : IsFirst (fun target => target.kind = purpose.preferred) targets target) :
      Serves path targets purpose
        ⟨target, targets.countP fun other => other.kind = purpose.preferred⟩
  | fallback
      {target : Target}
      (hforeign : ∀ other ∈ targets, ¬ other.entry.Same path)
      (hlacking : ∀ other ∈ targets, other.kind ≠ purpose.preferred)
      (hfirst : IsFirst (fun target => target.kind = purpose.fallback) targets target) :
      Serves path targets purpose
        ⟨target, targets.countP fun other => other.kind = purpose.fallback⟩

/-- The choice of a kind is the first target of it, and the candidates are all of them. -/
theorem ofKind?_eq_map (targets : List Target) (kind : TargetKind) :
    ofKind? targets kind =
      (targets.find? fun target => target.kind = kind).map fun target =>
        ⟨target, targets.countP fun other => other.kind = kind⟩ := by
  rw [← List.head?_filter, List.countP_eq_length_filter, ofKind?]
  cases targets.filter fun target => target.kind = kind with
  | nil => rfl
  | cons first others => simp [Nat.add_comm]

theorem ofKind?_eq_some_iff :
    ofKind? targets kind = some choice ↔
      ∃ target, IsFirst (fun target => target.kind = kind) targets target ∧
        ⟨target, targets.countP fun other => other.kind = kind⟩ = choice := by
  rw [ofKind?_eq_map, Option.map_eq_some_iff]
  simp only [find?_eq_some_iff_isFirst]

theorem ofKind?_eq_none_iff :
    ofKind? targets kind = none ↔ ∀ target ∈ targets, target.kind ≠ kind := by
  rw [ofKind?_eq_map, Option.map_eq_none_iff]
  simp

theorem preference_eq (purpose : Purpose) :
    preference purpose = [purpose.preferred, purpose.fallback] := by
  cases purpose <;> rfl

/-- Where no target starts at the file, the preferred kind is tried and then the other. -/
theorem forFile?_of_foreign
    (h : ∀ target ∈ targets, ¬ target.entry.Same path) :
    forFile? path targets purpose =
      (ofKind? targets purpose.preferred).or (ofKind? targets purpose.fallback) := by
  have hfind : (targets.find? fun target => target.entry.Same path) = none := by simpa using h
  simp only [forFile?, hfind, preference_eq, List.findSome?_cons, List.findSome?_nil]
  cases ofKind? targets purpose.preferred with
  | none => cases ofKind? targets purpose.fallback <;> rfl
  | some choice => rfl

/-- A target that starts at the file serves it by itself. -/
theorem forFile?_of_own
    {target : Target}
    (h : IsFirst (fun target => target.entry.Same path) targets target) :
    forFile? path targets purpose = some ⟨target, 1⟩ := by
  rw [forFile?, find?_eq_some_iff_isFirst.2 h]

theorem forFile?_eq_some_iff :
    forFile? path targets purpose = some choice ↔ Serves path targets purpose choice := by
  constructor
  · intro h
    rcases exists_isFirst_or_forall_not (fun target => target.entry.Same path) targets with
      ⟨target, hfirst⟩ | hforeign
    · rw [forFile?_of_own hfirst] at h
      obtain rfl := Option.some.inj h
      exact Serves.own hfirst
    · rw [forFile?_of_foreign hforeign, Option.or_eq_some_iff] at h
      rcases h with hpreferred | ⟨hnone, hfallback⟩
      · obtain ⟨target, hfirst, rfl⟩ := ofKind?_eq_some_iff.1 hpreferred
        exact Serves.preferred hforeign hfirst
      · obtain ⟨target, hfirst, rfl⟩ := ofKind?_eq_some_iff.1 hfallback
        exact Serves.fallback hforeign (ofKind?_eq_none_iff.1 hnone) hfirst
  · intro h
    cases h with
    | own hfirst => exact forFile?_of_own hfirst
    | preferred hforeign hfirst =>
        rw [forFile?_of_foreign hforeign, ofKind?_eq_some_iff.2 ⟨_, hfirst, rfl⟩, Option.some_or]
    | fallback hforeign hlacking hfirst =>
        rw [forFile?_of_foreign hforeign, ofKind?_eq_none_iff.2 hlacking, Option.none_or,
          ofKind?_eq_some_iff.2 ⟨_, hfirst, rfl⟩]

theorem forFile?_eq_none_iff :
    forFile? path targets purpose = none ↔ ∀ target ∈ targets, ¬ target.MayServe path := by
  have hkinds : ∀ kind : TargetKind, kind = purpose.preferred ∨ kind = purpose.fallback ↔
      kind = .library ∨ kind = .binary := by
    intro kind
    cases purpose
    · exact or_comm
    · exact Iff.rfl
  rcases exists_isFirst_or_forall_not (fun target => target.entry.Same path) targets with
    ⟨target, hfirst⟩ | hforeign
  · rw [forFile?_of_own hfirst]
    refine iff_of_false (Option.some_ne_none _) ?_
    exact fun hnone => hnone target hfirst.mem (Or.inl hfirst.holds)
  · rw [forFile?_of_foreign hforeign, Option.or_eq_none_iff, ofKind?_eq_none_iff,
      ofKind?_eq_none_iff, ← forall₂_and]
    refine forall₂_congr ?_
    intro target htarget
    rw [Target.MayServe, ← hkinds target.kind, or_iff_right (hforeign target htarget), not_or]

/-- Only the targets that may serve a file have a part in the choice. -/
theorem forFile?_filter (path : Path) (targets : List Target) (purpose : Purpose) :
    forFile? path (targets.filter fun target => target.MayServe path) purpose =
      forFile? path targets purpose := by
  have hfind : (targets.filter fun target => target.MayServe path).find?
        (fun target => target.entry.Same path) =
      targets.find? fun target => target.entry.Same path := by
    rw [List.find?_filter]
    congr 1
    funext target
    rw [decide_eq_decide, decide_eq_true_eq, decide_eq_true_eq]
    exact and_iff_right_of_imp Or.inl
  have hkind : ∀ kind : TargetKind, kind = .library ∨ kind = .binary →
      ofKind? (targets.filter fun target => target.MayServe path) kind = ofKind? targets kind := by
    intro kind hkind
    have hfilter : (targets.filter fun target => target.MayServe path).filter (·.kind = kind) =
        targets.filter (·.kind = kind) := by
      rw [List.filter_filter]
      refine List.filter_congr ?_
      intro target _
      rw [← Bool.decide_and, decide_eq_decide]
      refine and_iff_left_of_imp ?_
      rintro rfl
      exact Or.inr hkind
    rw [ofKind?, ofKind?, hfilter]
  rw [forFile?, forFile?, hfind]
  cases purpose <;>
    simp only [preference, List.findSome?_cons, List.findSome?_nil, hkind _ (Or.inl rfl),
      hkind _ (Or.inr rfl)]

end Choice

namespace Metadata

/-- What a listing can hold next without a part in the choice for a file. -/
inductive IsIdleAt (path : Path) (before : List Descriptor) : Descriptor → Prop
  | repeated
      {earlier extra : Descriptor}
      (hearlier : earlier ∈ before)
      (hname : earlier.name = extra.name)
      (hkind : earlier.kind = extra.kind)
      (hentry : earlier.entry.Same extra.entry) :
      IsIdleAt path before extra
  | library
      {earlier extra : Descriptor}
      (hearlier : earlier ∈ before)
      (hname : earlier.name = extra.name)
      (hentry : earlier.entry.Same extra.entry)
      (hold : TargetKind.ofTag? earlier.kind = some .library)
      (hnew : TargetKind.ofTag? extra.kind = some .library) :
      IsIdleAt path before extra
  | unsupported
      {extra : Descriptor}
      (hkind : TargetKind.ofTag? extra.kind = none) :
      IsIdleAt path before extra
  | elsewhere
      {extra : Descriptor}
      (hkind : TargetKind.ofTag? extra.kind = some .example ∨
        TargetKind.ofTag? extra.kind = some .test)
      (hentry : ¬ extra.entry.Same path) :
      IsIdleAt path before extra

/-- The second list is the first with one more descriptor that has no part in the choice. -/
def ExtendsIdly (path : Path) (descriptors extended : List Descriptor) : Prop :=
  ∃ before extra after, descriptors = before ++ after ∧ extended = before ++ extra :: after ∧
    IsIdleAt path before extra

end Metadata

namespace Catalog

variable {project : Project} {path : Path}

/-- A descriptor of a supported kind stands for the target with its name and entry. -/
theorem target?_eq_some
    {descriptor : Metadata.Descriptor}
    {kind : TargetKind}
    (h : TargetKind.ofTag? descriptor.kind = some kind) :
    target? project descriptor = some ⟨descriptor.name, kind, descriptor.entry, project.root⟩ := by
  rw [target?, h, Option.map_some]

theorem target?_eq_none
    {descriptor : Metadata.Descriptor}
    (h : TargetKind.ofTag? descriptor.kind = none) :
    target? project descriptor = none := by
  rw [target?, h, Option.map_none]

/-- A descriptor of the same name and kind as an earlier one, with the same entry, adds no
target. -/
theorem ofDescriptors_insert_of_earlier
    {before after : List Metadata.Descriptor}
    {earlier extra : Metadata.Descriptor}
    {kind : TargetKind}
    (hearlier : earlier ∈ before)
    (hname : earlier.name = extra.name)
    (hentry : earlier.entry.Same extra.entry)
    (hold : TargetKind.ofTag? earlier.kind = some kind)
    (hnew : TargetKind.ofTag? extra.kind = some kind) :
    ofDescriptors project (before ++ extra :: after) = ofDescriptors project (before ++ after) := by
  rw [ofDescriptors, ofDescriptors, List.filterMap_append, List.filterMap_append,
    List.filterMap_cons_some (target?_eq_some hnew)]
  refine foldl_add_insert ⟨_, List.mem_filterMap.2 ⟨earlier, hearlier, target?_eq_some hold⟩, ?_⟩
  exact ⟨hname, rfl, hentry, Path.Same.refl _⟩

/-- One more descriptor without a part in the choice leaves the targets that may serve the file. -/
theorem filter_ofDescriptors_of_extendsIdly
    {descriptors extended : List Metadata.Descriptor}
    (h : Metadata.ExtendsIdly path descriptors extended) :
    (ofDescriptors project extended).filter (fun target => target.MayServe path) =
      (ofDescriptors project descriptors).filter fun target => target.MayServe path := by
  obtain ⟨before, extra, after, rfl, rfl, hidle⟩ := h
  have hunsupported (hkind : TargetKind.ofTag? extra.kind = none) :
      ofDescriptors project (before ++ extra :: after) =
        ofDescriptors project (before ++ after) := by
    rw [ofDescriptors, ofDescriptors, List.filterMap_append, List.filterMap_append,
      List.filterMap_cons_none (target?_eq_none hkind)]
  cases hidle with
  | repeated hearlier hname hkind hentry =>
      cases htag : TargetKind.ofTag? extra.kind with
      | none => rw [hunsupported htag]
      | some kind =>
          rw [ofDescriptors_insert_of_earlier hearlier hname hentry (hkind ▸ htag) htag]
  | library hearlier hname hentry hold hnew =>
      rw [ofDescriptors_insert_of_earlier hearlier hname hentry hold hnew]
  | unsupported hkind => rw [hunsupported hkind]
  | elsewhere hkind hentry =>
      obtain ⟨kind, htag, hother⟩ : ∃ kind, TargetKind.ofTag? extra.kind = some kind ∧
          ¬ (kind = .library ∨ kind = .binary) := by
        rcases hkind with htag | htag
        · exact ⟨_, htag, by decide⟩
        · exact ⟨_, htag, by decide⟩
      have hdrop : ¬ Target.MayServe ⟨extra.name, kind, extra.entry, project.root⟩ path :=
        not_or.2 ⟨hentry, hother⟩
      rw [ofDescriptors, ofDescriptors, filter_foldl_add Target.mayServe_congr,
        filter_foldl_add Target.mayServe_congr, List.filterMap_append, List.filterMap_append,
        List.filterMap_cons_some (target?_eq_some htag), List.filter_append, List.filter_append,
        List.filter_cons_of_neg (by simpa using hdrop)]

/-- No number of descriptors without a part in the choice for a file changes it. -/
theorem forFile?_of_extendsIdly
    {descriptors extended : List Metadata.Descriptor}
    (h : Relation.ReflTransGen (Metadata.ExtendsIdly path) descriptors extended)
    (purpose : Purpose) :
    Choice.forFile? path (ofDescriptors project extended) purpose =
      Choice.forFile? path (ofDescriptors project descriptors) purpose := by
  induction h with
  | refl => rfl
  | tail _ hstep ih =>
      rw [← ih, ← Choice.forFile?_filter, filter_ofDescriptors_of_extendsIdly hstep,
        Choice.forFile?_filter]

end Catalog

/-- The catalog of a listing keeps first occurrences, all with the project's root, and it alone
says which target serves a file.  Listing more changes no choice where it adds only repetitions,
further tags of a library, kinds that are not supported, and examples and tests that start at other
files. -/
theorem catalog_and_choice_of_listing
    (project : Project)
    (descriptors : List Metadata.Descriptor)
    (path : Path) :
    let targets := Catalog.ofListing project (.ok descriptors)
    targets = Catalog.firstOccurrences (descriptors.filterMap (Catalog.target? project)) ∧
      targets.Pairwise (fun a b => ¬ a.Same b) ∧
      (∀ target ∈ targets, target.root = project.root) ∧
      (∀ purpose choice, Choice.forFile? path targets purpose = some choice ↔
        Choice.Serves path targets purpose choice) ∧
      (∀ purpose, Choice.forFile? path targets purpose = none ↔
        ∀ target ∈ targets, ¬ target.MayServe path) ∧
      ∀ extended, Relation.ReflTransGen (Metadata.ExtendsIdly path) descriptors extended →
        ∀ purpose, Choice.forFile? path (Catalog.ofListing project (.ok extended)) purpose =
          Choice.forFile? path targets purpose := by
  intro targets
  have hfirst : targets =
      Catalog.firstOccurrences (descriptors.filterMap (Catalog.target? project)) :=
    Catalog.foldl_add_eq_firstOccurrences _
  refine ⟨hfirst, ?_, ?_, ?_, ?_, ?_⟩
  · rw [hfirst]
    exact Catalog.pairwise_firstOccurrences _
  · exact fun target => Catalog.root_of_mem_ofListing
  · exact fun purpose choice => Choice.forFile?_eq_some_iff
  · exact fun purpose => Choice.forFile?_eq_none_iff
  · exact fun extended => Catalog.forFile?_of_extendsIdly

/-- A package with a library of two crate types, a binary that is listed twice, a build script and
an example. -/
def mixedListing : List Metadata.Descriptor :=
  [⟨"build-script-build", "custom-build", ⟨"/w/build.rs"⟩⟩,
    ⟨"app", "rlib", ⟨"/w/src/lib.rs"⟩⟩,
    ⟨"app", "cdylib", ⟨"/w/src/./lib.rs"⟩⟩,
    ⟨"demo", "example", ⟨"/w/examples/demo.rs"⟩⟩,
    ⟨"app", "bin", ⟨"/w/src/main.rs"⟩⟩,
    ⟨"app", "bin", ⟨"/w/src/main.rs"⟩⟩]

/-- The choices are those of a listing with one library and one binary. -/
theorem catalog_and_choice_of_listing_mixedListing :
    let targets := Catalog.ofListing ⟨⟨"/w"⟩⟩ (.ok mixedListing)
    Choice.forFile? ⟨"/w/src/util.rs"⟩ targets .lint =
        some ⟨⟨"app", .library, ⟨"/w/src/lib.rs"⟩, ⟨"/w"⟩⟩, 1⟩ ∧
      Choice.forFile? ⟨"/w/src/util.rs"⟩ targets .run =
        some ⟨⟨"app", .binary, ⟨"/w/src/main.rs"⟩, ⟨"/w"⟩⟩, 1⟩ := by
  intro targets
  let script : Metadata.Descriptor := ⟨"build-script-build", "custom-build", ⟨"/w/build.rs"⟩⟩
  let library : Metadata.Descriptor := ⟨"app", "rlib", ⟨"/w/src/lib.rs"⟩⟩
  let dynamic : Metadata.Descriptor := ⟨"app", "cdylib", ⟨"/w/src/./lib.rs"⟩⟩
  let demo : Metadata.Descriptor := ⟨"demo", "example", ⟨"/w/examples/demo.rs"⟩⟩
  let binary : Metadata.Descriptor := ⟨"app", "bin", ⟨"/w/src/main.rs"⟩⟩
  have hscript : Metadata.ExtendsIdly ⟨"/w/src/util.rs"⟩ [library, binary]
      [script, library, binary] :=
    ⟨[], script, _, rfl, rfl, .unsupported (by decide)⟩
  have hdynamic : Metadata.ExtendsIdly ⟨"/w/src/util.rs"⟩ [script, library, binary]
      [script, library, dynamic, binary] :=
    ⟨[script, library], dynamic, _, rfl, rfl,
      .library (List.mem_cons_of_mem _ (List.mem_singleton_self _)) rfl (by decide) (by decide)
        (by decide)⟩
  have hdemo : Metadata.ExtendsIdly ⟨"/w/src/util.rs"⟩ [script, library, dynamic, binary]
      [script, library, dynamic, demo, binary] :=
    ⟨[script, library, dynamic], demo, _, rfl, rfl, .elsewhere (by decide) (by decide)⟩
  have hbinary : Metadata.ExtendsIdly ⟨"/w/src/util.rs"⟩ [script, library, dynamic, demo, binary]
      mixedListing :=
    ⟨[script, library, dynamic, demo, binary], binary, [], rfl, rfl,
      .repeated (by decide) rfl rfl (Path.Same.refl _)⟩
  have hchoice := (catalog_and_choice_of_listing ⟨⟨"/w"⟩⟩ [library, binary]
    ⟨"/w/src/util.rs"⟩).2.2.2.2.2 mixedListing
    ((((Relation.ReflTransGen.single hscript).tail hdynamic).tail hdemo).tail hbinary)
  exact ⟨(hchoice .lint).trans (by decide), (hchoice .run).trans (by decide)⟩

end TargetLint
