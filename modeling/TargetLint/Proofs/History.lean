import Mathlib.Data.List.Induction

/-!
# The last event of a history and the first of a list

A law about a history often reads "the last event that …, provided that …", where
what is asked of an event may depend on the events before it.  `LastWhere` says this
for any such condition.  Main statements: what the last event becomes when one more
event is added, and that there is a last one unless no event fits.

A choice from a list often falls on the first item with a property.  `IsFirst` says so.  Main
statements: it is what a search finds, and no item with the property is ahead of it in an order
in which the list is sorted.
-/

namespace TargetLint

variable {α : Type}

/-- The event is the last one of the history that fits, given the events before it. -/
def LastWhere (fits : List α → α → Prop) (history : List α) (event : α) : Prop :=
  ∃ before later, history = before ++ event :: later ∧ fits before event ∧
    ∀ between next rest, later = between ++ next :: rest →
      ¬ fits (before ++ event :: between) next

/-- No event of the history fits, given the events before it. -/
def NoneWhere (fits : List α → α → Prop) (history : List α) : Prop :=
  ∀ before event later, history = before ++ event :: later → ¬ fits before event

variable {fits : List α → α → Prop} {history : List α} {event last : α}

/-- An event of a history with one more event is the new one or one of the old. -/
theorem snoc_eq_append_cons_iff
    {before later : List α} :
    history ++ [last] = before ++ event :: later ↔
      (history = before ∧ last = event ∧ later = []) ∨
        ∃ between, later = between ++ [last] ∧ history = before ++ event :: between := by
  rcases List.eq_nil_or_concat later with rfl | ⟨between, final, rfl⟩
  · constructor
    · intro h
      obtain ⟨hbefore, hevent⟩ := List.append_inj' h rfl
      exact Or.inl ⟨hbefore, List.singleton_inj.1 hevent, rfl⟩
    · rintro (⟨rfl, rfl, -⟩ | ⟨between, hnil, -⟩)
      · rfl
      · simp at hnil
  · constructor
    · intro h
      rw [List.concat_eq_append, ← List.cons_append, ← List.append_assoc] at h
      obtain ⟨hhistory, hlast⟩ := List.append_inj' h rfl
      rw [List.singleton_inj.1 hlast]
      exact Or.inr ⟨between, List.concat_eq_append, hhistory⟩
    · rintro (⟨-, -, hnil⟩ | ⟨other, hother, rfl⟩)
      · simp at hnil
      · rw [hother]
        simp

/-- If the new event fits, it is the last one that does. -/
theorem lastWhere_snoc_of_fits
    (h : fits history last) :
    LastWhere fits (history ++ [last]) event ↔ event = last := by
  constructor
  · rintro ⟨before, later, hsplit, -, hlater⟩
    rcases snoc_eq_append_cons_iff.1 hsplit with ⟨-, rfl, -⟩ | ⟨between, rfl, rfl⟩
    · rfl
    · exact absurd h (hlater between last [] rfl)
  · rintro rfl
    exact ⟨history, [], rfl, h, by simp⟩

/-- If the new event does not fit, the last one that does is an old one. -/
theorem lastWhere_snoc_of_not_fits
    (h : ¬ fits history last) :
    LastWhere fits (history ++ [last]) event ↔ LastWhere fits history event := by
  constructor
  · rintro ⟨before, later, hsplit, hfits, hlater⟩
    rcases snoc_eq_append_cons_iff.1 hsplit with ⟨rfl, rfl, -⟩ | ⟨between, rfl, rfl⟩
    · exact absurd hfits h
    · refine ⟨before, between, rfl, hfits, ?_⟩
      rintro middle next rest rfl
      exact hlater middle next (rest ++ [last]) (by simp)
  · rintro ⟨before, later, rfl, hfits, hlater⟩
    refine ⟨before, later ++ [last], by simp, hfits, ?_⟩
    intro between next rest hsplit
    rcases snoc_eq_append_cons_iff.1 hsplit with ⟨rfl, rfl, -⟩ | ⟨middle, -, rfl⟩
    · exact h
    · exact hlater between next middle rfl

theorem NoneWhere.of_snoc
    (h : NoneWhere fits (history ++ [last])) :
    NoneWhere fits history ∧ ¬ fits history last := by
  constructor
  · rintro before event later rfl
    exact h before event (later ++ [last]) (by simp)
  · exact h history last [] rfl

@[simp] theorem not_lastWhere_nil : ¬ LastWhere fits [] event := by
  rintro ⟨before, later, hsplit, -⟩
  simp at hsplit

/-- Some event is the last one that fits, or none does. -/
theorem exists_lastWhere_or_noneWhere
    (fits : List α → α → Prop)
    (history : List α) :
    (∃ event, LastWhere fits history event) ∨ NoneWhere fits history := by
  induction history using List.reverseRecOn with
  | nil =>
      refine Or.inr ?_
      intro before event later hsplit
      simp at hsplit
  | append_singleton history last ih =>
      by_cases hlast : fits history last
      · exact Or.inl ⟨last, (lastWhere_snoc_of_fits hlast).2 rfl⟩
      · rcases ih with ⟨event, hevent⟩ | hnone
        · exact Or.inl ⟨event, (lastWhere_snoc_of_not_fits hlast).2 hevent⟩
        · refine Or.inr ?_
          intro before event later hsplit
          rcases snoc_eq_append_cons_iff.1 hsplit with ⟨rfl, rfl, -⟩ | ⟨between, -, hold⟩
          · exact hlast
          · exact hnone before event between hold

section

variable {property : α → Prop} {items more : List α} {item other : α}

/-- The item is the first of a list that has a property. -/
def IsFirst (property : α → Prop) (items : List α) (item : α) : Prop :=
  ∃ before after, items = before ++ item :: after ∧ property item ∧
    ∀ other ∈ before, ¬ property other

theorem find?_eq_some_iff_isFirst [DecidablePred property] :
    items.find? (fun item => property item) = some item ↔ IsFirst property items item := by
  rw [List.find?_eq_some_iff_append, IsFirst]
  simp only [decide_eq_true_eq, Bool.not_eq_true', decide_eq_false_iff_not]
  constructor
  · rintro ⟨hitem, before, after, hsplit, hbefore⟩
    exact ⟨before, after, hsplit, hitem, hbefore⟩
  · rintro ⟨before, after, hsplit, hitem, hbefore⟩
    exact ⟨hitem, before, after, hsplit, hbefore⟩

/-- Some item is the first with a property, or none has it. -/
theorem exists_isFirst_or_forall_not
    (property : α → Prop)
    [DecidablePred property]
    (items : List α) :
    (∃ item, IsFirst property items item) ∨ ∀ item ∈ items, ¬ property item := by
  cases hfind : items.find? fun item => property item with
  | none => exact Or.inr (by simpa using hfind)
  | some item => exact Or.inl ⟨item, find?_eq_some_iff_isFirst.1 hfind⟩

namespace IsFirst

theorem holds (h : IsFirst property items item) : property item := by
  obtain ⟨_, _, -, hitem, -⟩ := h
  exact hitem

theorem mem (h : IsFirst property items item) : item ∈ items := by
  obtain ⟨before, after, rfl, -, -⟩ := h
  exact List.mem_append_right _ (List.mem_cons_self ..)

/-- What follows a list does not change its first item with a property. -/
theorem append
    (h : IsFirst property items item)
    (more : List α) :
    IsFirst property (items ++ more) item := by
  obtain ⟨before, after, rfl, hitem, hbefore⟩ := h
  exact ⟨before, after ++ more, by rw [List.append_assoc, List.cons_append], hitem, hbefore⟩

/-- Items without a property ahead of a list do not change its first item with it. -/
theorem append_left
    (h : IsFirst property items item)
    (hmore : ∀ other ∈ more, ¬ property other) :
    IsFirst property (more ++ items) item := by
  obtain ⟨before, after, rfl, hitem, hbefore⟩ := h
  refine ⟨more ++ before, after, (List.append_assoc ..).symm, hitem, ?_⟩
  intro other hother
  rcases List.mem_append.1 hother with hmem | hmem
  · exact hmore other hmem
  · exact hbefore other hmem

/-- In a sorted list, the first item with a property is ahead of the others with it. -/
theorem eq_or_rel_of_pairwise
    {rel : α → α → Prop}
    (h : IsFirst property items item)
    (hsorted : items.Pairwise rel)
    (hmem : other ∈ items)
    (hother : property other) :
    other = item ∨ rel item other := by
  obtain ⟨before, after, rfl, -, hbefore⟩ := h
  rcases List.mem_append.1 hmem with hahead | hrest
  · exact absurd hother (hbefore other hahead)
  · rcases List.mem_cons.1 hrest with heq | hafter
    · exact Or.inl heq
    · exact Or.inr (List.rel_of_pairwise_cons (List.pairwise_append.1 hsorted).2.1 hafter)

end IsFirst
end

end TargetLint
