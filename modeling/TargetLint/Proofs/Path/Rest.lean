import TargetLint.Project
import TargetLint.Proofs.Path.Ancestors

/-!
# What follows a directory in a path

Cutting a directory off the front of a path leaves a text.  Read as a path again, it has
the components that follow those of the directory, so directory and rest make up the path
and different paths under a directory leave different rests.
-/

namespace TargetLint
namespace Path

theorem dropIdleEnd_cons
    {segment : List Char}
    (h : isIdle segment = false)
    (others : List (List Char)) :
    dropIdleEnd (segment :: others) = segment :: dropIdleEnd others := by
  rw [dropIdleEnd, dropIdleEnd, List.reverse_cons, List.dropWhile_append]
  cases others.reverse.dropWhile isIdle with
  | nil => simp [h]
  | cons last before => simp

theorem dropIdleEnd_isPrefix (segments : List (List Char)) : dropIdleEnd segments <+: segments := by
  have hsuffix : segments.reverse.dropWhile isIdle <:+ segments.reverse :=
    List.dropWhile_suffix isIdle
  rw [dropIdleEnd, ← List.reverse_suffix, List.reverse_reverse]
  exact hsuffix

theorem dropMeaningful_suffix
    (count : Nat)
    (segments : List (List Char)) :
    dropMeaningful count segments <:+ segments := by
  induction count, segments using dropMeaningful.induct with
  | case1 segments =>
      rw [dropMeaningful]
  | case2 => exact List.suffix_refl []
  | case3 count segment rest hidle ih =>
      rw [dropMeaningful, if_pos hidle]
      exact ih.trans (List.suffix_cons segment rest)
  | case4 count segment rest hidle ih =>
      rw [dropMeaningful, if_neg hidle]
      exact ih.trans (List.suffix_cons segment rest)

theorem filterMap_dropIdleEnd (segments : List (List Char)) :
    (dropIdleEnd segments).filterMap segmentComponent? =
      segments.filterMap segmentComponent? := by
  rw [dropIdleEnd, List.filterMap_reverse, filterMap_dropWhile_isIdle, List.filterMap_reverse,
    List.reverse_reverse]

theorem filterMap_dropMeaningful
    (count : Nat)
    (segments : List (List Char)) :
    (dropMeaningful count segments).filterMap segmentComponent? =
      (segments.filterMap segmentComponent?).drop count := by
  induction count, segments using dropMeaningful.induct with
  | case1 segments => rw [dropMeaningful, List.drop_zero]
  | case2 => rfl
  | case3 count segment rest hidle ih =>
      rw [dropMeaningful, if_pos hidle, ih,
        List.filterMap_cons_none (Option.isNone_iff_eq_none.1 hidle)]
  | case4 count segment rest hidle ih =>
      obtain ⟨component, hcomponent⟩ :=
        Option.ne_none_iff_exists'.1 fun hnone => hidle (Option.isNone_iff_eq_none.2 hnone)
      rw [dropMeaningful, if_neg hidle, ih, List.filterMap_cons_some hcomponent, List.drop_succ_cons]

/-- A text that starts with a meaningful segment has no lead. -/
theorem splitLead_append_of_not_isIdle
    {segment : List Char}
    (hsep : '/' ∉ segment)
    (hidle : isIdle segment = false)
    {after : List Char}
    (hafter : after = [] ∨ after.head? = some '/') :
    splitLead (segment ++ after) = (.none, segment ++ after) := by
  match segment with
  | [] => cases hidle
  | [c] =>
      have hslash : c ≠ '/' := by
        rintro rfl
        simp at hsep
      have hdot : c ≠ '.' := by
        rintro rfl
        cases hidle
      cases after <;> simp [splitLead, hslash, hdot]
  | c :: d :: rest =>
      have hslash : c ≠ '/' := by
        rintro rfl
        simp at hsep
      have hnext : d ≠ '/' := by
        rintro rfl
        simp at hsep
      by_cases hdot : c = '.' <;> simp [splitLead, hslash, hdot, hnext]

section

variable {segments : List (List Char)}
  (hsep : ∀ segment ∈ segments, '/' ∉ segment)
  (hfirst : ∀ segment ∈ segments.head?, isIdle segment = false)

include hsep hfirst

/-- Segments of which the first is meaningful make up a text without lead. -/
theorem splitLead_joined :
    splitLead (Text.joined '/' segments) = (.none, Text.joined '/' segments) := by
  match segments with
  | [] => rfl
  | [first] =>
      have hmeaningful := hfirst first rfl
      have hnone := hsep first (List.mem_cons_self ..)
      simpa [Text.joined] using splitLead_append_of_not_isIdle hnone hmeaningful (Or.inl rfl)
  | first :: second :: rest =>
      have hmeaningful := hfirst first rfl
      have hnone := hsep first (List.mem_cons_self ..)
      exact splitLead_append_of_not_isIdle hnone hmeaningful (Or.inr rfl)

theorem lead_ofSegments_none : (ofSegments .none segments).lead = .none := by
  rw [lead, ofSegments, String.toList_ofList]
  exact congrArg Prod.fst (splitLead_joined hsep hfirst)

/-- Segments of which the first is meaningful are the segments of the path that they make up. -/
theorem components_ofSegments_none :
    (ofSegments .none segments).components = segments.filterMap segmentComponent? := by
  by_cases hnil : segments = []
  · subst hnil
    rfl
  · have hchars : (ofSegments .none segments).text.toList = Text.joined '/' segments := by
      rw [ofSegments, String.toList_ofList]
      rfl
    rw [components_eq, hchars, componentsOfChars, splitLead_joined hsep hfirst,
      Text.pieces_joined hnil hsep]
    rfl

end

/-- Idle segments at the end of a path do not matter. -/
theorem components_ofSegments_dropIdleEnd (path : Path) :
    (ofSegments path.lead (dropIdleEnd path.segments)).components = path.components := by
  have hsplit := reverse_eq_append_idle path.segments.reverse
  rw [List.reverse_reverse] at hsplit
  by_cases hidle : path.segments.reverse.takeWhile isIdle = []
  · rw [hidle, List.reverse_nil, List.append_nil] at hsplit
    have hwhole : ofSegments path.lead path.segments = path := by
      rw [ofSegments, segments, Text.joined_pieces, lead, lead_chars_append, String.ofList_toList]
    rw [dropIdleEnd, ← hsplit, hwhole]
  · rw [dropIdleEnd, components_ofSegments hsplit (by simpa using hidle), ← dropIdleEnd,
      filterMap_dropIdleEnd]
    rfl

theorem mem_segments_rest
    {path : Path}
    {count : Nat}
    {segment : List Char}
    (h : segment ∈ dropIdleEnd ((dropMeaningful count path.segments).dropWhile isIdle)) :
    segment ∈ path.segments :=
  (dropMeaningful_suffix count path.segments).subset
    ((List.dropWhile_suffix isIdle).subset ((dropIdleEnd_isPrefix _).subset h))

theorem isIdle_head_dropIdleEnd
    {segments : List (List Char)} :
    ∀ segment ∈ (dropIdleEnd (segments.dropWhile isIdle)).head?, isIdle segment = false := by
  intro segment hsegment
  cases hdrop : segments.dropWhile isIdle with
  | nil =>
      rw [hdrop] at hsegment
      cases hsegment
  | cons first others =>
      have hfirst : isIdle first = false := by
        have hhead := List.head?_dropWhile_not isIdle segments
        rw [hdrop] at hhead
        exact hhead
      rw [hdrop, dropIdleEnd_cons hfirst] at hsegment
      obtain rfl := Option.some.inj hsegment
      exact hfirst

/-- A path is made up of a directory over it and of what follows the directory. -/
theorem components_dropBase?
    {base path rest : Path}
    (h : base.dropBase? path = some rest) :
    path.components = base.components ++ rest.components := by
  rw [dropBase?] at h
  split at h
  · rename_i hunder
    split at h
    · rename_i hbase
      obtain rfl := Option.some.inj h
      rw [hbase, components_ofSegments_dropIdleEnd, List.nil_append]
    · rename_i hbase
      obtain rfl := Option.some.inj h
      rw [components_ofSegments_none
        (fun segment hsegment => Text.not_mem_of_mem_pieces (mem_segments_rest hsegment))
        isIdle_head_dropIdleEnd, filterMap_dropIdleEnd, filterMap_dropWhile_isIdle,
        filterMap_dropMeaningful]
      have hlead : path.lead.components.length ≤ base.components.length := by
        have hpositive := List.length_pos_iff.2 hbase
        cases path.lead <;> simp only [Lead.components, List.length_nil, List.length_singleton] <;>
          omega
      obtain ⟨rest, hrest⟩ := startsWith_iff.1 hunder
      have hdrop : rest = path.components.drop base.components.length := by
        rw [← hrest, List.drop_left]
      rw [show path.components = path.lead.components ++ path.segments.filterMap segmentComponent?
          from rfl, List.drop_append, List.drop_eq_nil_of_le hlead, List.nil_append] at hdrop
      rw [← hdrop, hrest]
  · cases h

/-- Behind a directory that denotes something, the rest of a path starts with its first segment. -/
theorem lead_dropBase?
    {base path rest : Path}
    (hbase : base.components ≠ [])
    (h : base.dropBase? path = some rest) :
    rest.lead = .none := by
  simp only [dropBase?, if_neg hbase] at h
  split at h
  · obtain rfl := Option.some.inj h
    exact lead_ofSegments_none
      (fun segment hsegment => Text.not_mem_of_mem_pieces (mem_segments_rest hsegment))
      isIdle_head_dropIdleEnd
  · cases h

theorem exists_dropBase?
    {base path : Path}
    (h : path.startsWith base = true) :
    ∃ rest, base.dropBase? path = some rest := by
  rw [dropBase?, if_pos h]
  split <;> exact ⟨_, rfl⟩

end Path

namespace Project

/-- A path in a project is made up of the root and of the path seen from the root. -/
theorem components_pathWithin
    {project : Project}
    {path : Path}
    (h : project.covers path = true) :
    path.components = project.root.components ++ (project.pathWithin path).components := by
  obtain ⟨rest, hrest⟩ := Path.exists_dropBase? h
  rw [pathWithin, hrest, Option.getD_some]
  exact Path.components_dropBase? hrest

/-- Paths of a project that are spelled alike from its root are the same. -/
theorem same_of_pathWithin_eq
    {project : Project}
    {p q : Path}
    (hp : project.covers p = true)
    (hq : project.covers q = true)
    (h : (project.pathWithin p).text = (project.pathWithin q).text) :
    p.Same q := by
  have hrest : project.pathWithin p = project.pathWithin q := congrArg Path.mk h
  rw [Path.Same, components_pathWithin hp, components_pathWithin hq, hrest]

end Project
end TargetLint
