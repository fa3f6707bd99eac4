import TargetLint.Path.Order

/-!
# Tables keyed by path

A `PathTable` holds at most one value per path, whatever the spelling.  A value
put under a path that is already there keeps the spelling of the first.  The view
of a table is `get?`; each operation has one equation in terms of it.
-/

namespace TargetLint

/-- Values under paths, no two of which are the same path. -/
structure PathTable (α : Type) where
  entries : List (Path × α)
  distinct : entries.Pairwise fun a b => ¬ a.1.Same b.1

namespace PathTable

variable {α : Type}

/-- The table without entries. -/
def empty : PathTable α :=
  ⟨[], List.Pairwise.nil⟩

instance : Inhabited (PathTable α) :=
  ⟨empty⟩

/-- The value under a path. -/
def get? (table : PathTable α) (path : Path) : Option α :=
  (table.entries.find? fun entry => entry.1.Same path).map Prod.snd

/-- The table has a value under the path. -/
def contains (table : PathTable α) (path : Path) : Bool :=
  table.entries.any fun entry => entry.1.Same path

/-- The number of entries. -/
def size (table : PathTable α) : Nat :=
  table.entries.length

/-- The paths of the entries. -/
def keys (table : PathTable α) : List Path :=
  table.entries.map Prod.fst

/-- One entry with its value replaced if it is the entry of `path`. -/
def replaceValue (path : Path) (value : α) (entry : Path × α) : Path × α :=
  (entry.1, if entry.1.Same path then value else entry.2)

/-- Put a value under a path, in the place of the one that was there. -/
def set (table : PathTable α) (path : Path) (value : α) : PathTable α :=
  if h : table.contains path then
    { entries := table.entries.map (replaceValue path value)
      distinct := List.pairwise_map.2 table.distinct }
  else
    { entries := table.entries ++ [(path, value)]
      distinct := by
        refine List.pairwise_append.2 ⟨table.distinct, List.pairwise_singleton _ _, ?_⟩
        intro entry hentry new hnew
        rw [List.mem_singleton] at hnew
        subst hnew
        intro hsame
        exact h (List.any_eq_true.2 ⟨entry, hentry, decide_eq_true hsame⟩) }

/-- Keep the entries whose path passes a test. -/
def filterKeys (table : PathTable α) (keep : Path → Bool) : PathTable α :=
  { entries := table.entries.filter fun entry => keep entry.1
    distinct := table.distinct.filter _ }

/-- Remove the value under a path. -/
def erase (table : PathTable α) (path : Path) : PathTable α :=
  table.filterKeys fun key => !decide (key.Same path)

/-- The entries in the order of their paths. -/
def sorted (table : PathTable α) : List (Path × α) :=
  table.entries.mergeSort fun a b => a.1.le b.1

@[simp] theorem get?_empty (path : Path) : (empty : PathTable α).get? path = none :=
  rfl

theorem contains_iff
    {table : PathTable α}
    {path : Path} :
    table.contains path = true ↔ ∃ entry ∈ table.entries, entry.1.Same path := by
  simp [contains]

theorem get?_eq_none_iff
    {table : PathTable α}
    {path : Path} :
    table.get? path = none ↔ table.contains path = false := by
  simp [get?, contains]

/-- The value under a path depends on what the path is, not on how it is spelled. -/
theorem get?_congr
    (table : PathTable α)
    {p q : Path}
    (h : p.Same q) :
    table.get? p = table.get? q := by
  simp only [get?, h.congr_right]

/-- An entry of the table is what its path leads to. -/
theorem get?_of_mem
    {table : PathTable α}
    {path : Path}
    {value : α}
    (h : (path, value) ∈ table.entries) :
    table.get? path = some value := by
  obtain ⟨entries, distinct⟩ := table
  simp only [get?]
  induction entries with
  | nil => simp at h
  | cons first rest ih =>
      rw [List.pairwise_cons] at distinct
      rcases List.mem_cons.1 h with rfl | h
      · simp
      · have hne : ¬ first.1.Same path := distinct.1 (path, value) h
        rw [List.find?_cons_of_neg (by simpa using hne)]
        exact ih distinct.2 h

/-- What a path leads to is an entry of the table, under some spelling of the path. -/
theorem mem_of_get?
    {table : PathTable α}
    {path : Path}
    {value : α}
    (h : table.get? path = some value) :
    ∃ key, key.Same path ∧ (key, value) ∈ table.entries := by
  obtain ⟨⟨key, found⟩, hfind, rfl⟩ := Option.map_eq_some_iff.1 h
  exact ⟨key, by simpa using List.find?_some hfind, List.mem_of_find?_eq_some hfind⟩

/-- After `set`, the path has the new value and every other path what it had. -/
theorem get?_set
    (table : PathTable α)
    (path : Path)
    (value : α)
    (query : Path) :
    (table.set path value).get? query =
      if path.Same query then some value else table.get? query := by
  unfold set
  split
  · rename_i hcontains
    simp only [get?, List.find?_map, Option.map_map]
    have hkey :
        ((fun entry : Path × α => decide (entry.1.Same query)) ∘ replaceValue path value) =
          fun entry => decide (entry.1.Same query) := rfl
    rw [hkey]
    by_cases hsame : path.Same query
    · rw [if_pos hsame]
      obtain ⟨entry, hmem, hentry⟩ := contains_iff.1 hcontains
      have hsome :
          (table.entries.find? fun entry => decide (entry.1.Same query)).isSome := by
        rw [List.find?_isSome]
        exact ⟨entry, hmem, decide_eq_true (hentry.trans hsame)⟩
      obtain ⟨found, hfound⟩ := Option.isSome_iff_exists.1 hsome
      have hfoundSame : found.1.Same query := by simpa using List.find?_some hfound
      rw [hfound]
      simp [replaceValue, hfoundSame.trans hsame.symm]
    · rw [if_neg hsame]
      cases hfound : table.entries.find? fun entry => decide (entry.1.Same query) with
      | none => rfl
      | some found =>
          have hfoundSame : found.1.Same query := by simpa using List.find?_some hfound
          have hne : ¬ found.1.Same path := fun h => hsame (h.symm.trans hfoundSame)
          simp [replaceValue, hne]
  · rename_i hcontains
    simp only [get?, List.find?_append, Option.map_or]
    by_cases hsame : path.Same query
    · have hnone : table.entries.find? (fun entry => decide (entry.1.Same query)) = none := by
        rw [List.find?_eq_none]
        intro entry hmem hentry
        exact hcontains
          (contains_iff.2 ⟨entry, hmem, (of_decide_eq_true hentry).trans hsame.symm⟩)
      simp [hnone, hsame]
    · simp [hsame]

/-- After `filterKeys`, the paths that pass the test have what they had and the others nothing. -/
theorem get?_filterKeys
    (table : PathTable α)
    {keep : Path → Bool}
    (hkeep : ∀ p q : Path, p.Same q → keep p = keep q)
    (query : Path) :
    (table.filterKeys keep).get? query =
      if keep query then table.get? query else none := by
  obtain ⟨entries, distinct⟩ := table
  simp only [filterKeys, get?, List.find?_filter]
  have hpred : (fun entry : Path × α => decide (keep entry.1 = true ∧ decide (entry.1.Same query) = true)) =
      fun entry => keep query && decide (entry.1.Same query) := by
    funext entry
    by_cases h : entry.1.Same query
    · simp [h, hkeep _ _ h]
    · simp [h]
  rw [hpred]
  cases keep query <;> simp

/-- After `erase`, the path has no value and every other path what it had. -/
theorem get?_erase
    (table : PathTable α)
    (path query : Path) :
    (table.erase path).get? query =
      if path.Same query then none else table.get? query := by
  have hiff : ∀ p q : Path, p.Same q → (p.Same path ↔ q.Same path) :=
    fun p q h => ⟨fun hp => h.symm.trans hp, fun hq => h.trans hq⟩
  rw [erase, get?_filterKeys table fun p q h => by simp [hiff p q h]]
  by_cases h : path.Same query
  · simp [h, h.symm]
  · have hne : ¬ query.Same path := fun hq => h hq.symm
    simp [h, hne]

end PathTable
end TargetLint
