import TargetLint.Overview

/-!
# Orders and sorting

The orders by which paths, regions and what is shown are compared are total and
transitive.  So what a sort gives depends on the order of its input only where two items
that are not the same tie, and it is strictly ascending where no two items tie.
-/

namespace TargetLint

variable {α β : Type}

/-- Comparing by something that is ordered is an order. -/
theorem transCmp_on
    (cmp : β → β → Ordering)
    [Std.TransCmp cmp]
    (key : α → β) :
    Std.TransCmp fun a b => cmp (key a) (key b) where
  eq_swap := Std.OrientedCmp.eq_swap
  isLE_trans := Std.TransCmp.isLE_trans

/-- Comparing by one order first and then by another is an order. -/
theorem transCmp_then
    {first second : α → α → Ordering}
    (hfirst : Std.TransCmp first)
    (hsecond : Std.TransCmp second) :
    Std.TransCmp fun a b => (first a b).then (second a b) :=
  inferInstanceAs (Std.TransCmp (compareLex first second))

namespace Path

instance : Std.TransCmp Component.compare :=
  transCmp_then (transCmp_on Ord.compare Component.rank) (transCmp_on Ord.compare Component.label)

instance : Std.LawfulEqCmp Component.compare where
  compare_self := Std.ReflCmp.compare_self
  eq_of_compare {a b} h := by
    rw [Component.compare, Ordering.then_eq_eq, Std.compare_eq_iff_eq, Std.compare_eq_iff_eq] at h
    cases a <;> cases b <;> simp_all [Component.rank, Component.label]

instance : Std.TransCmp compare :=
  transCmp_on (List.compareLex Component.compare) components

/-- Paths that tie are the same path. -/
theorem compare_eq_eq_iff
    {p q : Path} :
    p.compare q = .eq ↔ p.Same q := by
  rw [compare, Same]
  exact Std.LawfulEqCmp.compare_eq_iff_eq

end Path

instance : Std.TransCmp Position.compare :=
  transCmp_then (transCmp_on Ord.compare Position.line) (transCmp_on Ord.compare Position.column)

instance : Std.TransCmp Region.compare :=
  transCmp_then (transCmp_on Position.compare Region.start) (transCmp_on Position.compare Region.stop)

theorem Position.eq_of_compare
    {a b : Position}
    (h : a.compare b = .eq) :
    a = b := by
  rw [compare, Ordering.then_eq_eq, Std.compare_eq_iff_eq, Std.compare_eq_iff_eq] at h
  cases a
  cases b
  simp_all

theorem Region.eq_of_compare
    {a b : Region}
    (h : a.compare b = .eq) :
    a = b := by
  rw [compare, Ordering.then_eq_eq] at h
  have hstart := Position.eq_of_compare h.1
  have hstop := Position.eq_of_compare h.2
  cases a
  cases b
  simp_all

section

variable (cmp : α → α → Ordering) [Std.TransCmp cmp]

theorem pairwise_isLE_mergeSort (items : List α) :
    (items.mergeSort fun a b => (cmp a b).isLE).Pairwise fun a b => (cmp a b).isLE = true := by
  refine List.pairwise_mergeSort ?_ ?_ items
  · intro a b c hab hbc
    exact Std.TransCmp.isLE_trans hab hbc
  · intro a b
    have hswap : cmp a b = (cmp b a).swap := Std.OrientedCmp.eq_swap
    rw [hswap]
    cases cmp b a <;> rfl

/-- Sorting forgets the order of the input, if only equal items tie. -/
theorem mergeSort_eq_of_perm
    {first second : List α}
    (h : first.Perm second)
    (hties : ∀ a ∈ first, ∀ b ∈ first, cmp a b = .eq → a = b) :
    (first.mergeSort fun a b => (cmp a b).isLE) = second.mergeSort fun a b => (cmp a b).isLE := by
  have hfirst := List.mergeSort_perm first fun a b => (cmp a b).isLE
  have hsecond := List.mergeSort_perm second fun a b => (cmp a b).isLE
  refine List.Perm.eq_of_pairwise ?_ (pairwise_isLE_mergeSort cmp first)
    (pairwise_isLE_mergeSort cmp second) (hfirst.trans (h.trans hsecond.symm))
  intro a b ha hb hab hba
  refine hties a (hfirst.mem_iff.1 ha) b (h.mem_iff.2 (hsecond.mem_iff.1 hb)) ?_
  exact Std.OrientedCmp.isLE_antisymm hab hba

/-- What is sorted ascends strictly, if no two items tie. -/
theorem pairwise_lt_mergeSort
    {items : List α}
    (h : items.Pairwise fun a b => cmp a b ≠ .eq) :
    (items.mergeSort fun a b => (cmp a b).isLE).Pairwise fun a b => cmp a b = .lt := by
  have hsorted := List.mergeSort_perm items fun a b => (cmp a b).isLE
  have hapart := hsorted.symm.pairwise h fun hab hba => hab (Std.OrientedCmp.eq_comm.1 hba)
  refine ((pairwise_isLE_mergeSort cmp items).and hapart).imp ?_
  rintro a b ⟨hle, hne⟩
  rcases Ordering.isLE_iff_eq_lt_or_eq_eq.1 hle with hlt | heq
  · exact hlt
  · exact absurd heq hne

end

end TargetLint
