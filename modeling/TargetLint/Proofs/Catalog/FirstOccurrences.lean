import TargetLint.Proofs.Catalog
import Mathlib.Data.List.Induction

/-!
# A catalog keeps first occurrences

The catalog is built by adding targets one by one, and it turns out to be a sublist of what was
added: the targets that are not the same as any before them.  So no two of its targets are the
same, and a target that is added after one that it is the same as leaves no trace, wherever in the
list that is.
-/

namespace TargetLint

theorem Target.Same.trans {a b c : Target} (hab : a.Same b) (hbc : b.Same c) : a.Same c :=
  ⟨hab.1.trans hbc.1, hab.2.1.trans hbc.2.1, hab.2.2.1.trans hbc.2.2.1,
    hab.2.2.2.trans hbc.2.2.2⟩

namespace Catalog

variable {targets more : List Target} {target : Target}

/-- The targets of a list that are not the same as any before them, in their order. -/
def firstOccurrences (targets : List Target) : List Target :=
  (targets.zipIdx.filter fun entry =>
    !(targets.take entry.2).any fun other => other.Same entry.1).map Prod.fst

@[simp] theorem firstOccurrences_nil : firstOccurrences [] = [] :=
  rfl

/-- Whether the last target of a list is a first occurrence does not depend on what follows, so
one more target changes nothing about those before it. -/
theorem firstOccurrences_snoc :
    firstOccurrences (targets ++ [target]) =
      if ∃ other ∈ targets, other.Same target then
        firstOccurrences targets
      else
        firstOccurrences targets ++ [target] := by
  have hold : (targets.zipIdx.filter fun entry =>
        !((targets ++ [target]).take entry.2).any fun other => other.Same entry.1) =
      targets.zipIdx.filter fun entry =>
        !(targets.take entry.2).any fun other => other.Same entry.1 := by
    refine List.filter_congr ?_
    intro entry hentry
    have hindex : entry.2 ≤ targets.length := by
      have hlt := List.snd_lt_of_mem_zipIdx hentry
      omega
    rw [List.take_append_of_le_length hindex]
  have hlast : [target].zipIdx (0 + targets.length) = [(target, targets.length)] := by simp
  rw [firstOccurrences, List.zipIdx_append, List.filter_append, hold, hlast, List.filter_cons,
    List.take_left]
  split
  · rename_i hnew
    rw [if_neg (by simpa using hnew)]
    simp [firstOccurrences]
  · rename_i hsame
    rw [if_pos (by simpa using hsame)]
    simp [firstOccurrences]

/-- A list has a target that is the same as a given one exactly if its first occurrences have. -/
theorem exists_same_firstOccurrences_iff
    (targets : List Target)
    (target : Target) :
    (∃ other ∈ firstOccurrences targets, other.Same target) ↔
      ∃ other ∈ targets, other.Same target := by
  induction targets using List.reverseRecOn with
  | nil => simp
  | append_singleton targets last ih =>
      have hsnoc : (∃ other ∈ targets ++ [last], other.Same target) ↔
          (∃ other ∈ targets, other.Same target) ∨ last.Same target := by
        simp [or_and_right, exists_or]
      rw [firstOccurrences_snoc, hsnoc, ← ih]
      split
      · rename_i hlast
        obtain ⟨other, hother, hsame⟩ := hlast
        refine ⟨Or.inl, ?_⟩
        rintro (hold | hnew)
        · exact hold
        · exact ih.2 ⟨other, hother, hsame.trans hnew⟩
      · simp [or_and_right, exists_or]

/-- Targets that are added one by one leave the first occurrence of each. -/
theorem foldl_add_eq_firstOccurrences (targets : List Target) :
    targets.foldl add [] = firstOccurrences targets := by
  induction targets using List.reverseRecOn with
  | nil => rfl
  | append_singleton targets last ih =>
      rw [List.foldl_append, ih, firstOccurrences_snoc]
      simp only [List.foldl_cons, List.foldl_nil, add, List.any_eq_true, decide_eq_true_eq,
        exists_same_firstOccurrences_iff]

/-- No two first occurrences are the same. -/
theorem pairwise_firstOccurrences (targets : List Target) :
    (firstOccurrences targets).Pairwise fun a b => ¬ a.Same b := by
  induction targets using List.reverseRecOn with
  | nil => exact List.Pairwise.nil
  | append_singleton targets last ih =>
      rw [firstOccurrences_snoc]
      split
      · exact ih
      · rename_i hnew
        rw [← exists_same_firstOccurrences_iff] at hnew
        refine List.pairwise_append.2 ⟨ih, List.pairwise_singleton _ _, ?_⟩
        rintro other hother _ hlast hsame
        obtain rfl := List.mem_singleton.1 hlast
        exact hnew ⟨other, hother, hsame⟩

/-- A target after one that it is the same as is not added. -/
theorem foldl_add_insert
    {before after : List Target}
    (h : ∃ other ∈ before, other.Same target) :
    (before ++ target :: after).foldl add [] = (before ++ after).foldl add [] := by
  have hidle : add (firstOccurrences before) target = firstOccurrences before := by
    rw [← exists_same_firstOccurrences_iff] at h
    simpa [add] using h
  rw [List.foldl_append, List.foldl_append, List.foldl_cons, foldl_add_eq_firstOccurrences before,
    hidle]

section

variable {keep : Target → Bool} (hkeep : ∀ a b : Target, a.Same b → keep a = keep b)

include hkeep

theorem filter_add :
    (add targets target).filter keep =
      if keep target then add (targets.filter keep) target else targets.filter keep := by
  cases htarget : keep target with
  | true =>
      have hany : (targets.filter keep).any (fun other => other.Same target) =
          targets.any fun other => other.Same target := by
        rw [List.any_filter]
        refine List.any_congr rfl ?_
        intro other
        by_cases hsame : other.Same target
        · simp [hsame, hkeep _ _ hsame, htarget]
        · simp [hsame]
      rw [if_pos rfl, add, add, hany]
      split
      · rfl
      · simp [List.filter_append, htarget]
  | false =>
      rw [if_neg Bool.false_ne_true, add]
      split
      · rfl
      · simp [List.filter_append, htarget]

/-- The targets of one sort can be picked before they are added or after. -/
theorem filter_foldl_add :
    (more.foldl add targets).filter keep =
      (more.filter keep).foldl add (targets.filter keep) := by
  induction more generalizing targets with
  | nil => rfl
  | cons first rest ih =>
      rw [List.foldl_cons, ih, filter_add hkeep, List.filter_cons]
      split
      · rw [List.foldl_cons]
      · rfl

end
end Catalog
end TargetLint
