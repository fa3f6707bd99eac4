import TargetLint.Total
import TargetLint.Path.Table
import Mathlib.Data.List.Pairwise

/-!
# Entries of a table under its operations

The view of a table is `get?`.  Some readers of a table go through its entries
instead: they count, filter or sort them.  Here are the laws of the operations for
such readers: which entries there can be after each operation, what a total over the
entries becomes, and that a filter by key commutes with every operation.
-/

namespace TargetLint
namespace PathTable

variable {α : Type}

theorem contains_eq_isSome_get?
    (table : PathTable α)
    (path : Path) :
    table.contains path = (table.get? path).isSome := by
  rw [get?, Option.isSome_map, contains, List.any_eq, Bool.eq_iff_iff, List.find?_isSome]
  simp

/-- Entries of the same path are the same entry. -/
theorem entry_eq_of_same
    {table : PathTable α}
    {entry other : Path × α}
    (hentry : entry ∈ table.entries)
    (hother : other ∈ table.entries)
    (h : entry.1.Same other.1) :
    entry = other := by
  have : Std.Symm fun a b : Path × α => ¬ a.1.Same b.1 :=
    ⟨fun _ _ hab hba => hab hba.symm⟩
  by_contra hne
  exact table.distinct.forall hentry hother hne h

/-- An entry after `set` was there before, has the new value under its old key, or is new. -/
theorem mem_entries_set
    {table : PathTable α}
    {path : Path}
    {value : α}
    {entry : Path × α}
    (h : entry ∈ (table.set path value).entries) :
    entry ∈ table.entries ∨
      (∃ old, (entry.1, old) ∈ table.entries ∧ entry.1.Same path ∧ entry.2 = value) ∨
      (table.get? path = none ∧ entry = (path, value)) := by
  unfold set at h
  split at h
  · obtain ⟨old, hold, rfl⟩ := List.mem_map.1 h
    by_cases hsame : old.1.Same path
    · exact Or.inr (Or.inl ⟨old.2, hold, hsame, by simp [replaceValue, hsame]⟩)
    · exact Or.inl (by simpa [replaceValue, hsame] using hold)
  · rename_i hcontains
    rcases List.mem_append.1 h with hold | hnew
    · exact Or.inl hold
    · refine Or.inr (Or.inr ⟨?_, List.mem_singleton.1 hnew⟩)
      rw [get?_eq_none_iff, ← Bool.not_eq_true]
      exact hcontains

/-- A value under a new path comes last. -/
theorem entries_set_of_forall_not_same
    {table : PathTable α}
    {path : Path}
    (h : ∀ entry ∈ table.entries, ¬ entry.1.Same path)
    (value : α) :
    (table.set path value).entries = table.entries ++ [(path, value)] := by
  have hnew : ¬ table.contains path = true := by
    intro hcontains
    obtain ⟨entry, hentry, hsame⟩ := contains_iff.1 hcontains
    exact h entry hentry hsame
  rw [set, dif_neg hnew]

/-- Replacing the value of a path does nothing to entries of other paths. -/
theorem map_replaceValue_of_forall_not_same
    {path : Path}
    {entries : List (Path × α)}
    (h : ∀ entry ∈ entries, ¬ entry.1.Same path)
    (value : α) :
    entries.map (replaceValue path value) = entries := by
  have hid : ∀ entry ∈ entries, replaceValue path value entry = id entry := by
    intro entry hentry
    simp [replaceValue, h entry hentry]
  rw [List.map_congr_left hid, List.map_id]

/-- What `replaceValue` changes in a total over entries is the weight of the replaced value. -/
theorem totalOf_map_replaceValue
    {entries : List (Path × α)}
    (distinct : entries.Pairwise fun a b => ¬ a.1.Same b.1)
    {path : Path}
    {found : Path × α}
    (hfound : entries.find? (fun entry => decide (entry.1.Same path)) = some found)
    (weight : α → Nat)
    (value : α) :
    totalOf (fun entry => weight entry.2) (entries.map (replaceValue path value)) +
        weight found.2 =
      totalOf (fun entry => weight entry.2) entries + weight value := by
  induction entries with
  | nil => cases hfound
  | cons first rest ih =>
      rw [List.pairwise_cons] at distinct
      by_cases hfirst : first.1.Same path
      · have hrest : ∀ entry ∈ rest, ¬ entry.1.Same path := fun entry hentry hsame =>
          distinct.1 entry hentry (hfirst.trans hsame.symm)
        rw [List.find?_cons_of_pos (by simpa using hfirst), Option.some.injEq] at hfound
        rw [List.map_cons, map_replaceValue_of_forall_not_same hrest, ← hfound]
        simp only [replaceValue, hfirst, if_true, totalOf_cons]
        omega
      · rw [List.find?_cons_of_neg (by simpa using hfirst)] at hfound
        have hsum := ih distinct.2 hfound
        simp only [replaceValue, hfirst, if_false, List.map_cons, totalOf_cons] at hsum ⊢
        omega

/-- What `set` changes in a total over entries. -/
theorem totalOf_entries_set
    (table : PathTable α)
    (path : Path)
    (value : α)
    (weight : α → Nat) :
    totalOf (fun entry => weight entry.2) (table.set path value).entries +
        ((table.get? path).map weight).getD 0 =
      totalOf (fun entry => weight entry.2) table.entries + weight value := by
  unfold set get?
  split
  · rename_i hcontains
    obtain ⟨entry, hentry, hsame⟩ := contains_iff.1 hcontains
    have hsome : (table.entries.find? fun entry => decide (entry.1.Same path)).isSome :=
      List.find?_isSome.2 ⟨entry, hentry, decide_eq_true hsame⟩
    obtain ⟨found, hfound⟩ := Option.isSome_iff_exists.1 hsome
    have htotal := totalOf_map_replaceValue table.distinct hfound weight value
    simpa [hfound] using htotal
  · rename_i hcontains
    have hnone : table.get? path = none := by
      rw [get?_eq_none_iff, ← Bool.not_eq_true]
      exact hcontains
    have hfind : table.entries.find? (fun entry => decide (entry.1.Same path)) = none :=
      Option.map_eq_none_iff.1 hnone
    simp [hfind, totalOf_append]

/-- A filter by key, seen from the entries. -/
@[simp] theorem entries_filterKeys
    (table : PathTable α)
    (keep : Path → Bool) :
    (table.filterKeys keep).entries = table.entries.filter fun entry => keep entry.1 :=
  rfl

theorem eq_of_entries_eq
    {first second : PathTable α}
    (h : first.entries = second.entries) :
    first = second := by
  obtain ⟨entries, distinct⟩ := first
  subst h
  rfl

section FilterKeys

variable {keep : Path → Bool} (hkeep : ∀ p q : Path, p.Same q → keep p = keep q)
  (table : PathTable α)

theorem filterKeys_filterKeys_comm (other : Path → Bool) :
    (table.filterKeys other).filterKeys keep = (table.filterKeys keep).filterKeys other := by
  refine eq_of_entries_eq ?_
  simp only [entries_filterKeys, List.filter_filter, Bool.and_comm]

theorem filterKeys_erase (path : Path) :
    (table.erase path).filterKeys keep = (table.filterKeys keep).erase path :=
  filterKeys_filterKeys_comm table _

theorem erase_eq_self_of_forall_not_same
    {path : Path}
    (h : ∀ entry ∈ table.entries, ¬ entry.1.Same path) :
    table.erase path = table := by
  refine eq_of_entries_eq (List.filter_eq_self.2 ?_)
  intro entry hentry
  simpa using h entry hentry

include hkeep

theorem contains_filterKeys (path : Path) :
    (table.filterKeys keep).contains path = (keep path && table.contains path) := by
  rw [contains_eq_isSome_get?, contains_eq_isSome_get?, table.get?_filterKeys hkeep]
  cases keep path <;> simp

/-- No entry that is kept has the key of one that is not. -/
theorem not_same_of_mem_filterKeys
    {path : Path}
    (h : keep path = false) :
    ∀ entry ∈ (table.filterKeys keep).entries, ¬ entry.1.Same path := by
  intro entry hentry hsame
  have hentryKeep : keep entry.1 = true := (List.mem_filter.1 hentry).2
  rw [hkeep entry.1 path hsame, h] at hentryKeep
  cases hentryKeep

theorem filterKeys_set_of_keep
    {path : Path}
    (h : keep path = true)
    (value : α) :
    (table.set path value).filterKeys keep = (table.filterKeys keep).set path value := by
  have hcontains := contains_filterKeys hkeep table path
  rw [h, Bool.true_and] at hcontains
  refine eq_of_entries_eq ?_
  rw [entries_filterKeys, set, set]
  by_cases hold : table.contains path = true
  · rw [dif_pos hold, dif_pos (hcontains.trans hold), List.filter_map]
    rfl
  · rw [dif_neg hold, dif_neg (by rwa [hcontains]), List.filter_append]
    simp [h]

/-- A value under a path that is not kept does not show. -/
theorem filterKeys_set_of_not_keep
    {path : Path}
    (h : keep path = false)
    (value : α) :
    (table.set path value).filterKeys keep = table.filterKeys keep := by
  have hothers := not_same_of_mem_filterKeys hkeep table h
  refine eq_of_entries_eq ?_
  rw [entries_filterKeys, set]
  by_cases hold : table.contains path = true
  · rw [dif_pos hold, List.filter_map]
    exact map_replaceValue_of_forall_not_same hothers value
  · rw [dif_neg hold, List.filter_append]
    simp [h]

theorem filterKeys_erase_of_not_keep
    {path : Path}
    (h : keep path = false) :
    (table.erase path).filterKeys keep = table.filterKeys keep := by
  rw [filterKeys_erase]
  exact erase_eq_self_of_forall_not_same _ (not_same_of_mem_filterKeys hkeep table h)

end FilterKeys

end PathTable
end TargetLint
