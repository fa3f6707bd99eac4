import TargetLint.Proofs.Path.Ancestors
import TargetLint.Proofs.Path.Spelling

/-!
# The last component of a path

The parent of a path is the path without its last component.  A name without separators
is a single component, unless it is `.` or `..`; joined to a directory, it is the file
name of a path whose parent is the directory.  `..` leads out of the directory, and `.`
is the directory itself.
-/

namespace TargetLint
namespace Path

theorem shortened_eq_nil
    {lead : Lead}
    {segments : List (List Char)}
    (h : shortened lead segments = []) :
    lead ≠ .here ∧ ∀ segment ∈ segments, segmentComponent? segment = none := by
  induction segments with
  | nil =>
      rw [shortened] at h
      split at h
      · cases h
      · rename_i hlead
        exact ⟨hlead, by simp⟩
  | cons segment before ih =>
      rw [shortened] at h
      split at h
      · rename_i hidle
        rw [List.forall_mem_cons]
        exact ⟨(ih h).1, Option.isNone_iff_eq_none.1 hidle, (ih h).2⟩
      · cases h

/-- The parent of a path has all its components but the last, which is not the root. -/
theorem exists_parent?
    {path : Path}
    {before : List Component}
    {last : Component}
    (h : path.components = before ++ [last])
    (hlast : last ≠ .root) :
    ∃ parent, path.parent? = some parent ∧ parent.components = before := by
  have hshort := path.components_shortened_segments
  rw [h, beginnings_snoc, List.drop_one, List.tail_cons] at hshort
  rw [parent?]
  cases hup : shortened path.lead path.segments.reverse with
  | nil =>
      obtain ⟨hlead, hidle⟩ := shortened_eq_nil hup
      have hnone : path.segments.filterMap segmentComponent? = [] :=
        List.filterMap_eq_nil_iff.2 fun segment hsegment =>
          hidle segment (List.mem_reverse.2 hsegment)
      rw [components, hnone, List.append_nil] at h
      cases hroot : path.lead with
      | none =>
          rw [hroot] at h
          simp [Lead.components] at h
      | root =>
          rw [hroot] at h
          have hwhole := congrArg List.getLast? h
          simp [Lead.components] at hwhole
          exact absurd hwhole.symm hlast
      | here => exact absurd hroot hlead
  | cons parent others =>
      rw [hup] at hshort
      refine ⟨parent, rfl, ?_⟩
      by_cases hempty : parent.text = ""
      · rw [List.takeWhile_cons_of_neg (by simpa using hempty)] at hshort
        rw [text_eq_empty_iff.1 hempty]
        by_contra hne
        rw [beginnings_eq_cons (Ne.symm hne)] at hshort
        cases hshort
      · rw [List.takeWhile_cons_of_pos (by simpa using hempty), List.map_cons] at hshort
        have hne : before ≠ [] := by
          rintro rfl
          cases hshort
        rw [beginnings_eq_cons hne] at hshort
        exact (List.cons.inj hshort).1

theorem fileName?_of_components
    {path : Path}
    {before : List Component}
    {text : String}
    (h : path.components = before ++ [.name text]) :
    path.fileName? = some text := by
  rw [fileName?, h, List.getLast?_concat]

section

variable {name : String} (hsep : '/' ∉ name.toList)

include hsep

theorem lead_eq_none_of_not_mem
    (hhere : name ≠ ".") :
    (Path.mk name).lead = .none := by
  have hchars : name.toList ≠ ['.'] := by
    intro hdot
    exact hhere (String.toList_injective hdot)
  rw [lead]
  unfold splitLead
  split
  · rename_i heq
    simp [heq] at hsep
  · rename_i heq
    exact absurd heq hchars
  · rename_i heq
    simp [heq] at hsep
  · rfl

/-- A name without separators is a single component, unless it is `.` or `..`. -/
theorem components_of_not_mem
    (hne : name ≠ "")
    (hhere : name ≠ ".")
    (hup : name ≠ "..") :
    (Path.mk name).components = [.name name] := by
  have hlead := lead_eq_none_of_not_mem hsep hhere
  have hrest := lead_chars_append name.toList
  rw [lead] at hlead
  rw [hlead] at hrest
  have hsegment : segmentComponent? name.toList = some (.name name) := by
    unfold segmentComponent?
    split
    · rename_i heq
      exact absurd (String.toList_eq_nil_iff.1 heq) hne
    · rename_i heq
      exact absurd (String.toList_injective heq) hhere
    · rename_i heq
      exact absurd (String.toList_injective heq) hup
    · rw [String.ofList_toList]
  rw [components, lead, segments, hlead, show (splitLead name.toList).2 = name.toList from hrest,
    Text.pieces_of_not_mem hsep]
  simp [Lead.components, hsegment]

end

/-- A directory under the name `.` is the directory, however it is spelled. -/
theorem same_join_here
    {base : Path}
    (h : base.text ≠ "") :
    (base.join ⟨"."⟩).Same base := by
  have hdot : (Text.pieces '/' ['.']).filterMap segmentComponent? = [] := rfl
  rw [Same, components_join_of_relative h (by decide)]
  exact (congrArg (base.components ++ ·) hdot).trans (List.append_nil _)

end Path
end TargetLint
