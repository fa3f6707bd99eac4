/-!
# Cutting a text at a separator

`pieces sep` cuts at every occurrence of the separator and keeps empty pieces;
`joined sep` puts the separator back.  Main statements: joining undoes cutting,
no piece holds the separator, and pieces without the separator are found again.
-/

namespace TargetLint
namespace Text

/-- The pieces between the occurrences of `sep`, empty ones included; never the empty list. -/
def pieces (sep : Char) : List Char → List (List Char)
  | [] => [[]]
  | c :: rest =>
      if c = sep then
        [] :: pieces sep rest
      else
        match pieces sep rest with
        | [] => [[c]]
        | piece :: others => (c :: piece) :: others

/-- Pieces with `sep` between neighbours. -/
def joined (sep : Char) : List (List Char) → List Char
  | [] => []
  | [piece] => piece
  | piece :: others => piece ++ sep :: joined sep others

theorem pieces_ne_nil
    (sep : Char)
    (chars : List Char) :
    pieces sep chars ≠ [] := by
  cases chars with
  | nil => simp [pieces]
  | cons c rest =>
      simp only [pieces]
      split
      · simp
      · split <;> simp

@[simp] theorem joined_cons_of_ne_nil
    {sep : Char}
    {piece : List Char}
    {others : List (List Char)}
    (h : others ≠ []) :
    joined sep (piece :: others) = piece ++ sep :: joined sep others := by
  cases others with
  | nil => exact absurd rfl h
  | cons _ _ => rfl

/-- Joining the pieces of a text gives the text back. -/
theorem joined_pieces
    (sep : Char)
    (chars : List Char) :
    joined sep (pieces sep chars) = chars := by
  induction chars with
  | nil => rfl
  | cons c rest ih =>
      simp only [pieces]
      by_cases h : c = sep
      · rw [if_pos h, joined_cons_of_ne_nil (pieces_ne_nil sep rest), ih, h]
        rfl
      · rw [if_neg h]
        cases hp : pieces sep rest with
        | nil => exact absurd hp (pieces_ne_nil sep rest)
        | cons piece others =>
            rw [hp] at ih
            cases others with
            | nil => simpa [joined] using ih
            | cons _ _ => simpa [joined] using ih

/-- No piece holds the separator. -/
theorem not_mem_of_mem_pieces
    {sep : Char}
    {chars piece : List Char}
    (h : piece ∈ pieces sep chars) :
    sep ∉ piece := by
  induction chars generalizing piece with
  | nil =>
      rw [pieces, List.mem_singleton] at h
      simp [h]
  | cons c rest ih =>
      simp only [pieces] at h
      by_cases hc : c = sep
      · rw [if_pos hc, List.mem_cons] at h
        rcases h with rfl | h
        · simp
        · exact ih h
      · rw [if_neg hc] at h
        cases hp : pieces sep rest with
        | nil => exact absurd hp (pieces_ne_nil sep rest)
        | cons first others =>
            rw [hp] at h ih
            rcases List.mem_cons.1 h with rfl | h
            · have := ih (List.mem_cons_self ..)
              simp [this, Ne.symm hc]
            · exact ih (List.mem_cons_of_mem _ h)

/-- A text without the separator is one piece. -/
theorem pieces_of_not_mem
    {sep : Char}
    {chars : List Char}
    (h : sep ∉ chars) :
    pieces sep chars = [chars] := by
  induction chars with
  | nil => rfl
  | cons c rest ih =>
      rw [List.mem_cons, not_or] at h
      simp only [pieces, if_neg (Ne.symm h.1), ih h.2]

/-- The pieces on the two sides of a separator are the pieces of the whole. -/
theorem pieces_append_sep
    (sep : Char)
    (before after : List Char) :
    pieces sep (before ++ sep :: after) = pieces sep before ++ pieces sep after := by
  induction before with
  | nil => simp [pieces]
  | cons c rest ih =>
      simp only [List.cons_append, pieces]
      by_cases h : c = sep
      · simp [h, ih]
      · rw [if_neg h, if_neg h, ih]
        cases hp : pieces sep rest with
        | nil => exact absurd hp (pieces_ne_nil sep rest)
        | cons _ _ => rfl

/-- Pieces without the separator are found again after joining. -/
theorem pieces_joined
    {sep : Char}
    {parts : List (List Char)}
    (hne : parts ≠ [])
    (h : ∀ part ∈ parts, sep ∉ part) :
    pieces sep (joined sep parts) = parts := by
  induction parts with
  | nil => exact absurd rfl hne
  | cons part others ih =>
      have hpart : sep ∉ part := h part (List.mem_cons_self ..)
      by_cases hothers : others = []
      · subst hothers
        exact pieces_of_not_mem hpart
      · have hrest : pieces sep (joined sep others) = others :=
          ih hothers fun other hother => h other (List.mem_cons_of_mem _ hother)
        rw [joined_cons_of_ne_nil hothers, pieces_append_sep, pieces_of_not_mem hpart, hrest]
        rfl

end Text
end TargetLint
