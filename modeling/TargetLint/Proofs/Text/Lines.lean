import TargetLint.Text.Lines

/-!
# Numbered lines of a text that was put together

How a line ends and whether the last line is there at all make no difference once
lines are trimmed and blank ones left out: the numbered lines of a text are those of
its pieces between newlines.  So they can be told from two halves of the text.
-/

namespace TargetLint
namespace Text

theorem length_pieces
    (sep : Char)
    (chars : List Char) :
    (pieces sep chars).length = 1 + chars.count sep := by
  induction chars with
  | nil => rfl
  | cons c rest ih =>
      by_cases h : c = sep
      · rw [pieces, if_pos h, List.length_cons, ih, h, List.count_cons_self]
        omega
      · rw [pieces, if_neg h, List.count_cons_of_ne h]
        cases hpieces : pieces sep rest with
        | nil => exact absurd hpieces (pieces_ne_nil sep rest)
        | cons piece others =>
            rw [hpieces] at ih
            exact ih

/-- A blank character at the end does not survive trimming. -/
theorem trimChars_append_blank
    {c : Char}
    (h : isBlank c = true)
    (chars : List Char) :
    trimChars (chars ++ [c]) = trimChars chars := by
  unfold trimChars
  rw [List.dropWhile_append]
  by_cases hempty : chars.dropWhile isBlank = []
  · simp [hempty, h]
  · simp [hempty, h]

theorem trimChars_dropFinalReturn (line : List Char) :
    trimChars (dropFinalReturn line) = trimChars line := by
  unfold dropFinalReturn
  split
  · rename_i hlast
    obtain ⟨before, rfl⟩ := List.getLast?_eq_some_iff.1 hlast
    rw [List.dropLast_concat, trimChars_append_blank (by decide)]
  · rfl

/-- A line that is not blank, trimmed and with its number. -/
def numberedLine? (line : String × Nat) : Option (Nat × String) :=
  if trim line.1 = "" then none else some (line.2, trim line.1)

theorem numberedLines_eq_filterMap (text : String) :
    numberedLines text = ((lines text).zipIdx 1).filterMap numberedLine? :=
  rfl

/-- The ends of lines are trimmed away, and a last line without characters is blank. -/
theorem filterMap_linesOfPieces
    (parts : List (List Char))
    (start : Nat) :
    (((linesOfPieces parts).map String.ofList).zipIdx start).filterMap numberedLine? =
      ((parts.map String.ofList).zipIdx start).filterMap numberedLine? := by
  induction parts generalizing start with
  | nil => rfl
  | cons part others ih =>
      cases others with
      | nil =>
          by_cases hpart : part = []
          · subst hpart
            rfl
          · simp [linesOfPieces, hpart]
      | cons next rest =>
          have htrim :
              numberedLine? (String.ofList (dropFinalReturn part), start) =
                numberedLine? (String.ofList part, start) := by
            simp [numberedLine?, trim, trimChars_dropFinalReturn]
          rw [linesOfPieces]
          · simp only [List.map_cons, List.zipIdx_cons, List.filterMap_cons, htrim] at ih ⊢
            rw [ih]
          · simp

/-- The numbered lines of a text are those of its pieces between newlines. -/
theorem numberedLines_eq_pieces (text : String) :
    numberedLines text =
      (((pieces '\n' text.toList).map String.ofList).zipIdx 1).filterMap numberedLine? := by
  rw [numberedLines_eq_filterMap, lines, lineChars, filterMap_linesOfPieces]

/-- Lines that are counted from further on have their numbers shifted. -/
theorem filterMap_zipIdx_add
    (parts : List String)
    (start count : Nat) :
    (parts.zipIdx (start + count)).filterMap numberedLine? =
      ((parts.zipIdx start).filterMap numberedLine?).map fun line => (line.1 + count, line.2) := by
  induction parts generalizing start with
  | nil => rfl
  | cons part rest ih =>
      have hnext := ih (start + 1)
      rw [show start + 1 + count = start + count + 1 by omega] at hnext
      by_cases hblank : trim part = "" <;>
        simp [List.zipIdx_cons, numberedLine?, hblank, hnext]

/-- The numbered lines of two texts with a newline between them. -/
theorem numberedLines_append (before after : String) :
    numberedLines (before ++ "\n" ++ after) =
      numberedLines before ++
        (numberedLines after).map fun line =>
          (line.1 + (1 + before.toList.count '\n'), line.2) := by
  have hchars : (before ++ "\n" ++ after).toList = before.toList ++ '\n' :: after.toList := by
    simp
  rw [numberedLines_eq_pieces, numberedLines_eq_pieces before, numberedLines_eq_pieces after,
    hchars, pieces_append_sep, List.map_append, List.zipIdx_append, List.filterMap_append,
    List.length_map, length_pieces, filterMap_zipIdx_add]

end Text
end TargetLint
