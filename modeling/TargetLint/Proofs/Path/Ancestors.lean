import TargetLint.Proofs.Path.Prefix
import Mathlib.Data.List.Infix
import Mathlib.Data.List.Induction

/-!
# The ancestors of a path

Going up from a path passes through the nonempty beginnings of its components, the
longest first.  So every directory over the path is passed under some spelling, and
what is passed earlier lies under what is passed later.
-/

namespace TargetLint

theorem Text.exists_pieces_cons
    {sep first : Char}
    (h : first ≠ sep)
    (rest : List Char) :
    ∃ piece others, pieces sep rest = piece :: others ∧
      pieces sep (first :: rest) = (first :: piece) :: others := by
  rw [pieces, if_neg h]
  cases hpieces : pieces sep rest with
  | nil => exact absurd hpieces (pieces_ne_nil sep rest)
  | cons piece others => exact ⟨piece, others, rfl, rfl⟩

namespace Path

/-- The nonempty beginnings of a list of components, the longest first. -/
def beginnings (components : List Component) : List (List Component) :=
  components.inits.tail.reverse

theorem beginnings_snoc
    (components : List Component)
    (last : Component) :
    beginnings (components ++ [last]) = (components ++ [last]) :: beginnings components := by
  have hinits : components.inits ≠ [] := by
    intro hnil
    have hlength := List.length_inits components
    rw [hnil] at hlength
    cases hlength
  rw [beginnings, List.inits_append, List.tail_append_of_ne_nil hinits]
  simp [beginnings]

theorem beginnings_eq_cons
    {components : List Component}
    (h : components ≠ []) :
    beginnings components = components :: (beginnings components).drop 1 := by
  rcases List.eq_nil_or_concat components with rfl | ⟨before, last, rfl⟩
  · exact absurd rfl h
  · rw [List.concat_eq_append, beginnings_snoc]
    rfl

theorem mem_beginnings
    {components beginning : List Component} :
    beginning ∈ beginnings components ↔ beginning ≠ [] ∧ beginning <+: components := by
  induction components using List.reverseRecOn with
  | nil =>
      rw [List.prefix_nil]
      simp [beginnings]
  | append_singleton before last ih =>
      rw [beginnings_snoc, List.mem_cons, ih, List.prefix_concat_iff]
      constructor
      · rintro (rfl | ⟨hne, hbefore⟩)
        · exact ⟨by simp, Or.inl rfl⟩
        · exact ⟨hne, Or.inr hbefore⟩
      · rintro ⟨hne, hwhole | hbefore⟩
        · exact Or.inl hwhole
        · exact Or.inr ⟨hne, hbefore⟩

theorem pairwise_beginnings (components : List Component) :
    (beginnings components).Pairwise fun longer shorter => shorter <+: longer := by
  induction components using List.reverseRecOn with
  | nil => exact List.Pairwise.nil
  | append_singleton before last ih =>
      rw [beginnings_snoc]
      refine List.Pairwise.cons ?_ ih
      intro shorter hshorter
      exact (mem_beginnings.1 hshorter).2.trans (List.prefix_append _ _)

theorem segmentComponent?_eq_none_iff
    {segment : List Char} :
    segmentComponent? segment = none ↔ segment = [] ∨ segment = ['.'] := by
  unfold segmentComponent?
  split <;> simp_all

theorem componentsOfChars_ne_nil_of_pieces
    {chars segment : List Char}
    {others : List (List Char)}
    (hpieces : Text.pieces '/' (splitLead chars).2 = segment :: others)
    (hsegment : ¬ (segment = [] ∨ segment = ['.'])) :
    componentsOfChars chars ≠ [] := by
  rw [componentsOfChars, hpieces]
  simp [segmentComponent?_eq_none_iff, hsegment]

theorem componentsOfChars_cons_ne_nil
    (first : Char)
    (rest : List Char) :
    componentsOfChars (first :: rest) ≠ [] := by
  by_cases hslash : first = '/'
  · subst hslash
    exact List.cons_ne_nil _ _
  obtain ⟨piece, others, hrest, hpieces⟩ := Text.exists_pieces_cons hslash rest
  by_cases hdot : first = '.'
  · subst hdot
    match rest with
    | [] => exact List.cons_ne_nil _ _
    | second :: after =>
        by_cases hnext : second = '/'
        · subst hnext
          exact List.cons_ne_nil _ _
        · obtain ⟨word, more, -, hword⟩ := Text.exists_pieces_cons hnext after
          rw [hword] at hrest
          obtain ⟨rfl, rfl⟩ := List.cons.inj hrest
          have hfirst : Text.pieces '/' (splitLead ('.' :: second :: after)).2 =
              ('.' :: second :: word) :: more := by
            simpa [splitLead, hnext] using hpieces
          exact componentsOfChars_ne_nil_of_pieces hfirst (by simp)
  · have hsplit : (splitLead (first :: rest)).2 = first :: rest := by
      cases rest <;> simp [splitLead, hslash, hdot]
    rw [← hsplit] at hpieces
    exact componentsOfChars_ne_nil_of_pieces hpieces (by simp [hdot])

/-- Only the empty text denotes nothing. -/
theorem text_eq_empty_iff
    {path : Path} :
    path.text = "" ↔ path.components = [] := by
  rw [← String.toList_eq_nil_iff, components_eq]
  cases path.text.toList with
  | nil => exact iff_of_true rfl rfl
  | cons first rest =>
      exact iff_of_false (List.cons_ne_nil _ _) (componentsOfChars_cons_ne_nil first rest)

theorem filterMap_dropWhile_isIdle (segments : List (List Char)) :
    (segments.dropWhile isIdle).filterMap segmentComponent? =
      segments.filterMap segmentComponent? := by
  induction segments with
  | nil => rfl
  | cons segment before ih =>
      by_cases hidle : isIdle segment = true
      · rw [List.dropWhile_cons_of_pos hidle, ih,
          List.filterMap_cons_none (Option.isNone_iff_eq_none.1 hidle)]
      · rw [List.dropWhile_cons_of_neg hidle]

/-- What is left when components are taken off the end, down to the first. -/
theorem components_shortened
    {path : Path}
    {segments cut : List (List Char)}
    (h : path.segments = segments.reverse ++ cut) :
    ((shortened path.lead segments).takeWhile (·.text ≠ "")).map components =
      (beginnings (path.lead.components ++
        segments.reverse.filterMap segmentComponent?)).drop 1 := by
  -- By induction on the segments that are left, the last one first; `cut` holds those gone before.
  induction segments generalizing cut with
  | nil =>
      cases path.lead with
      | none => rfl
      | root => rfl
      | here => rfl
  | cons segment before ih =>
      rw [List.reverse_cons, List.append_assoc, List.singleton_append] at h
      have hbefore := ih h
      rw [List.reverse_cons, List.filterMap_append]
      by_cases hidle : isIdle segment = true
      · rw [shortened, if_pos hidle, hbefore,
          List.filterMap_cons_none (Option.isNone_iff_eq_none.1 hidle)]
        simp
      · obtain ⟨component, hcomponent⟩ :=
          Option.ne_none_iff_exists'.1 fun hnone => hidle (Option.isNone_iff_eq_none.2 hnone)
        have hkept : (ofSegments path.lead (before.dropWhile isIdle).reverse).components =
            path.lead.components ++ before.reverse.filterMap segmentComponent? := by
          rw [reverse_eq_append_idle before, List.append_assoc] at h
          rw [components_ofSegments h (by simp), List.filterMap_reverse,
            filterMap_dropWhile_isIdle, List.filterMap_reverse]
        rw [shortened, if_neg hidle, List.filterMap_cons_some hcomponent, List.filterMap_nil,
          ← List.append_assoc, beginnings_snoc, List.drop_one, List.tail_cons]
        by_cases hnil : path.lead.components ++ before.reverse.filterMap segmentComponent? = []
        · have hempty := text_eq_empty_iff.2 (hkept.trans hnil)
          rw [hnil, List.takeWhile_cons_of_neg (by simpa using hempty)]
          rfl
        · have hnonempty := mt text_eq_empty_iff.1 (hkept ▸ hnil)
          rw [List.takeWhile_cons_of_pos (by simpa using hnonempty), List.map_cons, hkept, hbefore,
            ← beginnings_eq_cons hnil]

theorem components_shortened_segments (path : Path) :
    ((shortened path.lead path.segments.reverse).takeWhile (·.text ≠ "")).map components =
      (beginnings path.components).drop 1 := by
  have hwhole : path.segments = path.segments.reverse.reverse ++ [] := by simp
  rw [components_shortened hwhole, List.reverse_reverse]
  rfl

/-- Going up from a path passes through the nonempty beginnings of its components. -/
theorem components_ancestors (path : Path) :
    (path.ancestors.takeWhile (·.text ≠ "")).map components = beginnings path.components := by
  rw [ancestors]
  by_cases hnil : path.components = []
  · have hempty := text_eq_empty_iff.2 hnil
    rw [hnil, List.takeWhile_cons_of_neg (by simpa using hempty)]
    rfl
  · have hnonempty := mt text_eq_empty_iff.1 hnil
    rw [List.takeWhile_cons_of_pos (by simpa using hnonempty), List.map_cons,
      components_shortened_segments, ← beginnings_eq_cons hnil]

end Path
end TargetLint
