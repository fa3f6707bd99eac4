/-!
# Totals

What the items of a list come to, when each of them counts for a number.
-/

namespace TargetLint

variable {α : Type}

/-- The sum of the weights of all items. -/
def totalOf (weight : α → Nat) : List α → Nat
  | [] => 0
  | item :: rest => weight item + totalOf weight rest

@[simp] theorem totalOf_nil (weight : α → Nat) :
    totalOf weight [] = 0 :=
  rfl

@[simp] theorem totalOf_cons
    (weight : α → Nat)
    (item : α)
    (rest : List α) :
    totalOf weight (item :: rest) = weight item + totalOf weight rest :=
  rfl

theorem totalOf_append
    (weight : α → Nat)
    (first second : List α) :
    totalOf weight (first ++ second) = totalOf weight first + totalOf weight second := by
  induction first with
  | nil => simp
  | cons item rest ih =>
      rw [List.cons_append, totalOf_cons, totalOf_cons, ih]
      omega

end TargetLint
