import TargetLint.BuildTool

/-!
# Where targets of a catalog come from

Every target of a project's catalog has the project's root, and the target that
serves a file is one of the catalog.
-/

namespace TargetLint

namespace Catalog

theorem mem_add
    {targets : List Target}
    {target other : Target}
    (h : other ∈ add targets target) :
    other ∈ targets ∨ other = target := by
  unfold add at h
  split at h
  · exact Or.inl h
  · simpa using h

theorem mem_foldl_add
    {targets more : List Target}
    {target : Target}
    (h : target ∈ more.foldl add targets) :
    target ∈ targets ∨ target ∈ more := by
  induction more generalizing targets with
  | nil => exact Or.inl h
  | cons first rest ih =>
      rcases ih h with hadded | hrest
      · rcases mem_add hadded with hold | rfl
        · exact Or.inl hold
        · exact Or.inr (List.mem_cons_self ..)
      · exact Or.inr (List.mem_cons_of_mem _ hrest)

/-- The targets of a project have its root. -/
theorem root_of_mem_ofListing
    {project : Project}
    {listing : Except Metadata.Failure (List Metadata.Descriptor)}
    {target : Target}
    (h : target ∈ ofListing project listing) :
    target.root = project.root := by
  cases listing with
  | error failure => cases h
  | ok descriptors =>
      rcases mem_foldl_add h with hnil | hmem
      · cases hnil
      · obtain ⟨descriptor, -, htarget⟩ := List.mem_filterMap.1 hmem
        obtain ⟨kind, -, rfl⟩ := Option.map_eq_some_iff.1 htarget
        rfl

end Catalog

namespace Choice

theorem mem_of_ofKind?
    {targets : List Target}
    {kind : TargetKind}
    {choice : Choice}
    (h : ofKind? targets kind = some choice) :
    choice.target ∈ targets := by
  unfold ofKind? at h
  split at h
  · cases h
  · rename_i first others hfilter
    obtain rfl := Option.some.inj h
    have hfirst : first ∈ targets.filter (·.kind = kind) := by simp [hfilter]
    exact (List.mem_filter.1 hfirst).1

/-- The target that serves a file is one of those given. -/
theorem mem_of_forFile?
    {path : Path}
    {targets : List Target}
    {purpose : Purpose}
    {choice : Choice}
    (h : forFile? path targets purpose = some choice) :
    choice.target ∈ targets := by
  unfold forFile? at h
  split at h
  · rename_i target hfound
    obtain rfl := Option.some.inj h
    exact List.mem_of_find?_eq_some hfound
  · obtain ⟨kind, -, hkind⟩ := List.exists_of_findSome?_eq_some h
    exact mem_of_ofKind? hkind

end Choice
end TargetLint
