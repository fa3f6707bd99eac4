import TargetLint.Text.Decimal

/-!
# Numerals

The digits in front of a text form one numeral, as long as they go.  The digits in which a number
is written spell that number.
-/

namespace TargetLint
namespace Text

/-- Digits that are a whole numeral in front of what follows: one at least, and none is left out. -/
structure IsNumeral (digits rest : List Char) : Prop where
  ne_nil : digits ≠ []
  isDigit : ∀ c ∈ digits, c.isDigit = true
  ends : ∀ c, rest.head? = some c → c.isDigit = false

namespace IsNumeral

variable {digits rest : List Char}

theorem takeWhile_append (h : IsNumeral digits rest) :
    (digits ++ rest).takeWhile Char.isDigit = digits := by
  rw [List.takeWhile_append_of_pos h.isDigit]
  cases rest with
  | nil => simp
  | cons c rest => simp [h.ends c rfl]

theorem dropWhile_append (h : IsNumeral digits rest) :
    (digits ++ rest).dropWhile Char.isDigit = rest := by
  rw [List.dropWhile_append_of_pos h.isDigit]
  cases rest with
  | nil => rfl
  | cons c rest => simp [h.ends c rfl]

/-- The digits in front of a text are a numeral, if there are any. -/
theorem of_takeWhile
    {chars : List Char}
    (h : chars.takeWhile Char.isDigit ≠ []) :
    IsNumeral (chars.takeWhile Char.isDigit) (chars.dropWhile Char.isDigit) where
  ne_nil := h
  isDigit := List.all_eq_true.1 List.all_takeWhile
  ends := by
    intro c hc
    have hstop := List.head?_dropWhile_not Char.isDigit chars
    rwa [hc] at hstop

/-- A numeral may get more digits in front. -/
theorem cons
    {c : Char}
    (hc : c.isDigit = true)
    (h : IsNumeral digits rest) :
    IsNumeral (c :: digits) rest :=
  ⟨List.cons_ne_nil _ _, List.forall_mem_cons.2 ⟨hc, h.isDigit⟩, h.ends⟩

end IsNumeral

theorem isNumeral_toDigits
    (n : Nat)
    {rest : List Char}
    (h : ∀ c, rest.head? = some c → c.isDigit = false) :
    IsNumeral (Nat.toDigits 10 n) rest :=
  ⟨Nat.toDigits_ne_nil, fun _ => Nat.isDigit_of_mem_toDigits (by decide) (by decide), h⟩

theorem digitsValue_toDigits (n : Nat) :
    digitsValue (Nat.toDigits 10 n) = n := by
  have hvalue : digitsValue (Nat.toDigits 10 n) = Nat.ofDigitChars 10 (Nat.toDigits 10 n) 0 := by
    simp only [digitsValue, Nat.ofDigitChars_eq_foldl, Nat.mul_comm]
  rw [hvalue, Nat.ofDigitChars_ten_toDigits]

end Text
end TargetLint
