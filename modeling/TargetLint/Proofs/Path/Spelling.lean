import TargetLint.Path.Collapse
import TargetLint.Proofs.Path.Rest
import Mathlib.Data.List.Basic

/-!
# Components of paths that are put together

What a path denotes can be told from its parts: a relative path that is joined to a
directory adds its components, and the plain spelling of components denotes exactly
them.
-/

namespace TargetLint
namespace Path

/-- The component is what its characters denote when they stand between separators. -/
def Component.IsSegment (component : Component) : Prop :=
  segmentComponent? component.chars = some component ∧ '/' ∉ component.chars

/-- The component is the name of a file or directory. -/
def Component.IsName (component : Component) : Prop :=
  ∃ text, component = .name text

theorem chars_of_segmentComponent?
    {segment : List Char}
    {component : Component}
    (h : segmentComponent? segment = some component) :
    component.chars = segment := by
  unfold segmentComponent? at h
  split at h
  · cases h
  · cases h
  · rw [← Option.some.inj h]
    rfl
  · rw [← Option.some.inj h, Component.chars, String.toList_ofList]

theorem up_or_isName_of_segmentComponent?
    {segment : List Char}
    {component : Component}
    (h : segmentComponent? segment = some component) :
    component = .up ∨ component.IsName := by
  unfold segmentComponent? at h
  split at h
  · cases h
  · cases h
  · exact Or.inl (Option.some.inj h).symm
  · exact Or.inr ⟨_, (Option.some.inj h).symm⟩

theorem isSegment_of_mem_pieces
    {chars : List Char}
    {component : Component}
    (h : component ∈ (Text.pieces '/' chars).filterMap segmentComponent?) :
    component.IsSegment := by
  obtain ⟨segment, hpiece, hsegment⟩ := List.mem_filterMap.1 h
  have hchars := chars_of_segmentComponent? hsegment
  constructor
  · rw [hchars, hsegment]
  · rw [hchars]
    exact Text.not_mem_of_mem_pieces hpiece

theorem up_or_isName_of_mem_pieces
    {chars : List Char}
    {component : Component}
    (h : component ∈ (Text.pieces '/' chars).filterMap segmentComponent?) :
    component = .up ∨ component.IsName := by
  obtain ⟨segment, -, hsegment⟩ := List.mem_filterMap.1 h
  exact up_or_isName_of_segmentComponent? hsegment

theorem root_not_mem_pieces (chars : List Char) :
    .root ∉ (Text.pieces '/' chars).filterMap segmentComponent? := by
  intro hroot
  rcases up_or_isName_of_mem_pieces hroot with hup | ⟨text, hname⟩
  · cases hup
  · cases hname

section

variable {components : List Component} (h : ∀ component ∈ components, component.IsSegment)

include h

theorem sep_not_mem_chars : ∀ segment ∈ components.map Component.chars, '/' ∉ segment := by
  intro segment hsegment
  obtain ⟨component, hcomponent, rfl⟩ := List.mem_map.1 hsegment
  exact (h component hcomponent).2

theorem filterMap_chars :
    (components.map Component.chars).filterMap segmentComponent? = components := by
  rw [List.filterMap_map]
  calc components.filterMap (segmentComponent? ∘ Component.chars)
      = components.filterMap some :=
        List.filterMap_congr fun component hcomponent => (h component hcomponent).1
    _ = components := List.filterMap_some

/-- Components that stand between separators are found again. -/
theorem filterMap_pieces_joined
    (hne : components ≠ []) :
    (Text.pieces '/' (Text.joined '/' (components.map Component.chars))).filterMap
      segmentComponent? = components := by
  rw [Text.pieces_joined (by simpa using hne) (sep_not_mem_chars h), filterMap_chars h]

end

theorem lead_eq_root_iff
    {path : Path} :
    path.lead = .root ↔ path.isAbsolute = true := by
  rw [lead, isAbsolute, decide_eq_true_eq, List.head?_eq_some_iff]
  constructor
  · intro hlead
    have hchars := lead_chars_append path.text.toList
    rw [hlead] at hchars
    exact ⟨_, hchars.symm⟩
  · rintro ⟨rest, hrest⟩
    rw [hrest]
    rfl

theorem components_of_isAbsolute
    {path : Path}
    (h : path.isAbsolute = true) :
    path.components = .root :: path.segments.filterMap segmentComponent? := by
  rw [components, lead_eq_root_iff.2 h]
  rfl

/-- Only an absolute path has the root in it. -/
theorem root_mem_components_iff
    {path : Path} :
    .root ∈ path.components ↔ path.isAbsolute = true := by
  rw [← lead_eq_root_iff, components, segments, List.mem_append,
    or_iff_left (root_not_mem_pieces _)]
  cases path.lead <;> simp [Lead.components]

theorem isAbsolute_of_components
    {path : Path}
    {rest : List Component}
    (h : path.components = .root :: rest) :
    path.isAbsolute = true :=
  root_mem_components_iff.1 (h ▸ List.mem_cons_self)

theorem isAbsolute_join
    {base : Path}
    (h : base.isAbsolute = true)
    (other : Path) :
    (base.join other).isAbsolute = true := by
  rw [isAbsolute, decide_eq_true_eq] at h
  obtain ⟨rest, hrest⟩ := List.head?_eq_some_iff.1 h
  unfold join
  split
  · assumption
  · split <;> simp [isAbsolute, hrest]

theorem isAbsolute_eq_false_of_lead
    {path : Path}
    (h : path.lead = .none) :
    path.isAbsolute = false := by
  rw [← Bool.not_eq_true, ← lead_eq_root_iff, h]
  simp

/-- The `.` that a relative path may start with is not among the components of its pieces. -/
theorem filterMap_pieces_splitLead
    {chars : List Char}
    (h : (splitLead chars).1 ≠ .root) :
    (Text.pieces '/' (splitLead chars).2).filterMap segmentComponent? =
      (Text.pieces '/' chars).filterMap segmentComponent? := by
  unfold splitLead at h ⊢
  split
  · exact absurd rfl h
  · rfl
  · rename_i rest
    have hnil : Text.pieces '/' ('/' :: rest) = [] :: Text.pieces '/' rest :=
      Text.pieces_append_sep '/' [] rest
    have hdot : Text.pieces '/' ('.' :: '/' :: rest) = ['.'] :: Text.pieces '/' rest :=
      Text.pieces_append_sep '/' ['.'] rest
    rw [hnil, hdot, List.filterMap_cons_none rfl, List.filterMap_cons_none rfl]
  · rfl

/-- A relative path denotes its pieces, behind a `.` if it starts with one. -/
theorem components_of_relative
    {path : Path}
    (h : path.isAbsolute = false) :
    path.components =
      path.lead.components ++ (Text.pieces '/' path.text.toList).filterMap segmentComponent? := by
  have hlead : path.lead ≠ .root := by
    intro hroot
    rw [lead_eq_root_iff, h] at hroot
    cases hroot
  rw [components, segments, filterMap_pieces_splitLead hlead]

/-- A path that starts with its first segment adds its components to the directory it is joined to. -/
theorem components_join
    (base : Path)
    {other : Path}
    (h : other.lead = .none) :
    (base.join other).components = base.components ++ other.components := by
  by_cases hbase : base.text = ""
  · rw [join_of_empty hbase, components_eq base, hbase]
    rfl
  · have hother := isAbsolute_eq_false_of_lead h
    rw [components_join_of_relative hbase hother, components_of_relative hother, h]
    rfl

theorem lead_eq_none_of_isName
    {path : Path}
    (h : ∀ component ∈ path.components, component.IsName) :
    path.lead = .none := by
  cases hlead : path.lead with
  | none => rfl
  | root =>
      obtain ⟨text, hname⟩ := h .root (by rw [components, hlead]; exact List.mem_cons_self)
      cases hname
  | here =>
      obtain ⟨text, hname⟩ := h .here (by rw [components, hlead]; exact List.mem_cons_self)
      cases hname

theorem lead_eq_none_of_components_eq_name
    {path : Path}
    {text : String}
    (h : path.components = [.name text]) :
    path.lead = .none := by
  refine lead_eq_none_of_isName ?_
  rw [h]
  intro component hcomponent
  exact ⟨text, List.mem_singleton.1 hcomponent⟩

/-- The plain spelling of what can stand between separators denotes just that. -/
theorem components_ofComponents
    {components : List Component}
    (h : ∀ component ∈ components, component.IsSegment) :
    (ofComponents components).components = components := by
  have hplain : ofComponents components = ofSegments .none (components.map Component.chars) := by
    unfold ofComponents
    split
    · cases (h .root (List.mem_singleton_self _)).1
    · rfl
  have hfirst : ∀ segment ∈ (components.map Component.chars).head?, isIdle segment = false := by
    intro segment hsegment
    rw [List.head?_map] at hsegment
    obtain ⟨component, hcomponent, rfl⟩ := Option.map_eq_some_iff.1 hsegment
    rw [isIdle, (h component (List.mem_of_mem_head? hcomponent)).1]
    rfl
  rw [hplain, components_ofSegments_none (sep_not_mem_chars h) hfirst, filterMap_chars h]

/-- So does the plain spelling of the root and what follows it. -/
theorem components_ofComponents_root
    {rest : List Component}
    (h : ∀ component ∈ rest, component.IsSegment) :
    (ofComponents (.root :: rest)).components = .root :: rest := by
  cases rest with
  | nil => decide
  | cons first others =>
      have htext : (ofComponents (.root :: first :: others)).text.toList =
          '/' :: Text.joined '/' ((first :: others).map Component.chars) := by
        simp [ofComponents, Component.chars]
      have hpieces := filterMap_pieces_joined h (List.cons_ne_nil first others)
      rw [components_eq, htext]
      exact congrArg (Component.root :: ·) hpieces

end Path
end TargetLint
