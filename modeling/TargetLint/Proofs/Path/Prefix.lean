import TargetLint.ProjectSearch
import TargetLint.Target

/-!
# Paths that lie under others

Lying under a directory is a prefix relation of components.  Here are its order laws
and the two ways in which paths below a directory arise: a relative path that is
joined to it, and the directories that are left when a path is cut at its end.
-/

namespace TargetLint

/-- Joining two lists of pieces puts a separator between them. -/
theorem Text.joined_append
    {sep : Char}
    {first second : List (List Char)}
    (hfirst : first ≠ [])
    (hsecond : second ≠ []) :
    joined sep (first ++ second) = joined sep first ++ sep :: joined sep second := by
  induction first with
  | nil => exact absurd rfl hfirst
  | cons piece others ih =>
      by_cases hothers : others = []
      · subst hothers
        exact joined_cons_of_ne_nil hsecond
      · have hrest : others ++ second ≠ [] := by simp [hothers]
        rw [List.cons_append, joined_cons_of_ne_nil hrest, ih hothers,
          joined_cons_of_ne_nil hothers]
        simp

theorem Text.eq_singleton_of_joined_eq_nil
    {sep : Char}
    {parts : List (List Char)}
    (hparts : parts ≠ [])
    (h : joined sep parts = []) :
    parts = [[]] := by
  match parts, hparts with
  | [part], _ => simpa [joined] using h
  | part :: second :: others, _ => simp [joined] at h

namespace Path

theorem startsWith_iff
    {path base : Path} :
    path.startsWith base = true ↔ base.components <+: path.components :=
  List.isPrefixOf_iff_prefix

theorem startsWith_of_same
    {p q : Path}
    (h : p.Same q) :
    p.startsWith q = true :=
  startsWith_iff.2 ⟨[], by rw [List.append_nil, show p.components = q.components from h]⟩

/-- Whether a path lies under a directory depends on what the directory is. -/
theorem startsWith_congr_base
    (path : Path)
    {p q : Path}
    (h : p.Same q) :
    path.startsWith p = path.startsWith q := by
  rw [startsWith, startsWith, show p.components = q.components from h]

/-- Two directories over the same path lie one under the other. -/
theorem startsWith_or_startsWith
    {path p q : Path}
    (hp : path.startsWith p = true)
    (hq : path.startsWith q = true) :
    p.startsWith q = true ∨ q.startsWith p = true := by
  rw [startsWith_iff] at *
  rw [startsWith_iff, or_comm]
  exact List.prefix_or_prefix_of_prefix hp hq

/-- Of two directories over the same path, those that are equally deep are the same. -/
theorem same_of_startsWith_of_length_le
    {p q : Path}
    (h : p.startsWith q = true)
    (hlength : p.components.length ≤ q.components.length) :
    p.Same q :=
  ((startsWith_iff.1 h).eq_of_length_le hlength).symm

/-- Neither of two directories lies under the other. -/
def Apart (p q : Path) : Prop :=
  p.startsWith q = false ∧ q.startsWith p = false

instance (p q : Path) : Decidable (p.Apart q) :=
  inferInstanceAs (Decidable (_ ∧ _))

namespace Apart

variable {p q : Path} (h : p.Apart q)

include h

theorem symm : q.Apart p :=
  ⟨h.2, h.1⟩

theorem not_same : ¬ p.Same q := by
  intro hsame
  have hunder := startsWith_of_same hsame
  rw [h.1] at hunder
  cases hunder

theorem congr_left
    {r : Path}
    (hsame : p.Same r) :
    r.Apart q := by
  rw [Apart, ← startsWith_congr q hsame, ← startsWith_congr_base q hsame]
  exact h

/-- What lies under one of two directories apart does not lie under the other. -/
theorem startsWith_eq_false
    {path : Path}
    (hpath : path.startsWith p = true) :
    path.startsWith q = false := by
  rw [← Bool.not_eq_true]
  intro hother
  rcases startsWith_or_startsWith hpath hother with hunder | hunder
  · rw [h.1] at hunder
    cases hunder
  · rw [h.2] at hunder
    cases hunder

end Apart

/-- The components of a path, as a function of the characters of its text. -/
def componentsOfChars (chars : List Char) : List Component :=
  (splitLead chars).1.components ++
    (Text.pieces '/' (splitLead chars).2).filterMap segmentComponent?

theorem components_eq (path : Path) :
    path.components = componentsOfChars path.text.toList :=
  rfl

theorem lead_chars_append (chars : List Char) :
    (splitLead chars).1.chars ++ (splitLead chars).2 = chars := by
  unfold splitLead
  split <;> rfl

/-- The lead of a text is found at its start. -/
theorem splitLead_append_sep
    {before : List Char}
    (hbefore : before ≠ [])
    (after : List Char) :
    splitLead (before ++ '/' :: after) =
      ((splitLead before).1, (splitLead before).2 ++ '/' :: after) := by
  match before, hbefore with
  | '/' :: rest, _ => rfl
  | ['.'], _ => rfl
  | '.' :: '/' :: rest, _ => rfl
  | c :: rest, _ =>
      by_cases hslash : c = '/'
      · subst hslash
        rfl
      · by_cases hdot : c = '.'
        · subst hdot
          match rest with
          | [] => rfl
          | d :: rest =>
              by_cases hnext : d = '/'
              · subst hnext
                rfl
              · simp [splitLead, hnext]
        · cases rest <;> simp [splitLead, hslash, hdot]

/-- What follows a separator adds the components of its pieces. -/
theorem componentsOfChars_append_sep
    {before : List Char}
    (hbefore : before ≠ [])
    (after : List Char) :
    componentsOfChars (before ++ '/' :: after) =
      componentsOfChars before ++ (Text.pieces '/' after).filterMap segmentComponent? := by
  rw [componentsOfChars, splitLead_append_sep hbefore, Text.pieces_append_sep,
    List.filterMap_append, ← List.append_assoc]
  rfl

/-- A relative path adds the components of its pieces to the directory it is joined to. -/
theorem components_join_of_relative
    {base other : Path}
    (hbase : base.text ≠ "")
    (hother : other.isAbsolute = false) :
    (base.join other).components =
      base.components ++ (Text.pieces '/' other.text.toList).filterMap segmentComponent? := by
  rw [components_eq base, components_eq (base.join other), join,
    if_neg (by rw [hother]; exact Bool.false_ne_true)]
  split
  · rename_i hend
    have hseparator : base.text.toList.getLast? = some '/' := by
      rcases Bool.or_eq_true_iff.1 hend with hempty | hseparator
      · exact absurd (of_decide_eq_true hempty) hbase
      · exact of_decide_eq_true hseparator
    obtain ⟨before, hbefore⟩ := List.getLast?_eq_some_iff.1 hseparator
    rw [String.toList_append, hbefore, List.append_assoc, List.singleton_append]
    by_cases hroot : before = []
    · subst hroot
      rfl
    · rw [componentsOfChars_append_sep hroot, componentsOfChars_append_sep hroot]
      simp [Text.pieces, segmentComponent?]
  · have hchars : (base.text ++ "/" ++ other.text).toList =
        base.text.toList ++ '/' :: other.text.toList := by
      simp
    rw [hchars, componentsOfChars_append_sep (mt String.toList_eq_nil_iff.1 hbase)]

/-- What is joined to nothing stays as it is. -/
theorem join_of_empty
    {base : Path}
    (hbase : base.text = "")
    (other : Path) :
    base.join other = other := by
  rw [join, hbase]
  split
  · rfl
  · simp

/-- A relative path that is joined to a directory lies under it. -/
theorem startsWith_join
    (base : Path)
    {other : Path}
    (h : other.isAbsolute = false) :
    (base.join other).startsWith base = true := by
  rw [startsWith_iff]
  by_cases hbase : base.text = ""
  · rw [components_eq base, hbase]
    exact List.nil_prefix
  · rw [components_join_of_relative hbase h]
    exact List.prefix_append _ _

theorem mem_shortened
    {lead : Lead}
    {segments : List (List Char)}
    {directory : Path}
    (h : directory ∈ shortened lead segments) :
    directory = ⟨""⟩ ∨ ∃ after segment before, segments = after ++ segment :: before ∧
      directory = ofSegments lead (before.dropWhile isIdle).reverse := by
  induction segments with
  | nil =>
      unfold shortened at h
      split at h
      · exact Or.inl (List.mem_singleton.1 h)
      · cases h
  | cons segment before ih =>
      unfold shortened at h
      have hlater : directory ∈ shortened lead before → directory = ⟨""⟩ ∨
          ∃ after other rest, segment :: before = after ++ other :: rest ∧
            directory = ofSegments lead (rest.dropWhile isIdle).reverse := by
        intro hmem
        rcases ih hmem with hempty | ⟨after, other, rest, rfl, hdirectory⟩
        · exact Or.inl hempty
        · exact Or.inr ⟨segment :: after, other, rest, rfl, hdirectory⟩
      split at h
      · exact hlater h
      · rcases List.mem_cons.1 h with hdirectory | hmem
        · exact Or.inr ⟨[], segment, before, rfl, hdirectory⟩
        · exact hlater hmem

/-- The text of a lead and the first segments of a path denotes what they denote in the path. -/
theorem components_ofSegments
    {path : Path}
    {kept cut : List (List Char)}
    (h : path.segments = kept ++ cut)
    (hcut : cut ≠ []) :
    (ofSegments path.lead kept).components =
      path.lead.components ++ kept.filterMap segmentComponent? := by
  rw [components_eq, ofSegments, String.toList_ofList]
  by_cases hkept : kept = []
  · subst hkept
    cases path.lead <;> rfl
  by_cases hbefore : path.lead.chars ++ Text.joined '/' kept = []
  · obtain ⟨hlead, hjoined⟩ := List.append_eq_nil_iff.1 hbefore
    rw [hbefore, Text.eq_singleton_of_joined_eq_nil hkept hjoined]
    cases hpath : path.lead with
    | none => rfl
    | root =>
        rw [hpath] at hlead
        cases hlead
    | here =>
        rw [hpath] at hlead
        cases hlead
  · have htext : path.text.toList =
        (path.lead.chars ++ Text.joined '/' kept) ++ '/' :: Text.joined '/' cut := by
      rw [List.append_assoc, ← Text.joined_append hkept hcut, ← h, segments, Text.joined_pieces,
        lead, lead_chars_append]
    have hpieces : Text.pieces '/' (Text.joined '/' cut) = cut := by
      refine Text.pieces_joined hcut ?_
      intro segment hsegment
      have hpiece : segment ∈ Text.pieces '/' (splitLead path.text.toList).2 := by
        rw [← segments, h]
        exact List.mem_append_right _ hsegment
      exact Text.not_mem_of_mem_pieces hpiece
    have hpath : componentsOfChars (path.lead.chars ++ Text.joined '/' kept) ++
        cut.filterMap segmentComponent? =
          (path.lead.components ++ kept.filterMap segmentComponent?) ++
            cut.filterMap segmentComponent? := by
      calc componentsOfChars (path.lead.chars ++ Text.joined '/' kept) ++
            cut.filterMap segmentComponent?
          = path.components := by
            rw [components_eq, htext, componentsOfChars_append_sep hbefore, hpieces]
        _ = _ := by rw [components, h, List.filterMap_append, List.append_assoc]
    exact List.append_cancel_right hpath

/-- A path lies under what is left when its last segments are cut off. -/
theorem startsWith_ofSegments
    {path : Path}
    {kept cut : List (List Char)}
    (h : path.segments = kept ++ cut)
    (hcut : cut ≠ []) :
    path.startsWith (ofSegments path.lead kept) = true := by
  rw [startsWith_iff, components_ofSegments h hcut, components, h, List.filterMap_append,
    ← List.append_assoc]
  exact List.prefix_append _ _

theorem reverse_eq_append_idle (before : List (List Char)) :
    before.reverse =
      (before.dropWhile isIdle).reverse ++ (before.takeWhile isIdle).reverse := by
  rw [← List.reverse_append, List.takeWhile_append_dropWhile]

/-- A path lies under each of its ancestors. -/
theorem startsWith_of_mem_ancestors
    {path directory : Path}
    (h : directory ∈ path.ancestors) :
    path.startsWith directory = true := by
  rcases List.mem_cons.1 h with rfl | hmem
  · exact startsWith_of_same (Same.refl _)
  · rcases mem_shortened hmem with rfl | ⟨after, segment, before, hsegments, rfl⟩
    · exact startsWith_iff.2 List.nil_prefix
    · have hsplit : path.segments = (before.dropWhile isIdle).reverse ++
          ((before.takeWhile isIdle).reverse ++ segment :: after.reverse) := by
        calc path.segments
            = (after ++ segment :: before).reverse := by rw [← hsegments, List.reverse_reverse]
          _ = before.reverse ++ segment :: after.reverse := by simp
          _ = _ := by rw [reverse_eq_append_idle, List.append_assoc]
      exact startsWith_ofSegments hsplit (by simp)

end Path
end TargetLint
