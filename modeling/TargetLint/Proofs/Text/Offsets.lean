import Mathlib.Data.List.Infix

/-!
# Cutting a text at byte offsets

A text is stored as bytes, and a character takes one to four of them.  So a text can be cut at
some offsets only: those between two characters.  `cutAt?` refuses all others, `offsetOf?` finds
a pattern and tells where it starts.  What is found is always a place to cut.
-/

namespace TargetLint
namespace Text

/-- The number of bytes that characters take. -/
def byteCount : List Char → Nat
  | [] => 0
  | c :: rest => c.utf8Size + byteCount rest

theorem byteCount_append (before after : List Char) :
    byteCount (before ++ after) = byteCount before + byteCount after := by
  induction before with
  | nil => simp [byteCount]
  | cons c rest ih =>
      rw [List.cons_append, byteCount, byteCount, ih]
      omega

/-- The characters of a text take as many bytes as the text. -/
theorem byteCount_toList (text : String) : byteCount text.toList = text.utf8ByteSize := by
  suffices hchars : ∀ chars, byteCount chars = (String.ofList chars).utf8ByteSize by
    rw [hchars, String.ofList_toList]
  intro chars
  induction chars with
  | nil => rfl
  | cons c rest ih =>
      have hsplit : String.ofList (c :: rest) = String.singleton c ++ String.ofList rest := by
        rw [String.singleton_eq_ofList, ← String.ofList_append]
        rfl
      rw [byteCount, ih, hsplit, String.utf8ByteSize_append, String.utf8ByteSize_singleton]

/--
The characters before and after a byte offset; absent where the offset lies within a character or
behind the text.
-/
def cutAt? : Nat → List Char → Option (List Char × List Char)
  | 0, chars => some ([], chars)
  | _ + 1, [] => none
  | offset + 1, c :: rest =>
      if c.utf8Size ≤ offset + 1 then
        (cutAt? (offset + 1 - c.utf8Size) rest).map fun sides => (c :: sides.1, sides.2)
      else
        none

/-- A text can be cut behind its first characters. -/
theorem cutAt?_byteCount (before after : List Char) :
    cutAt? (byteCount before) (before ++ after) = some (before, after) := by
  induction before with
  | nil => cases after <;> rfl
  | cons c before ih =>
      have hpos := c.utf8Size_pos
      obtain ⟨offset, hoffset⟩ : ∃ offset, c.utf8Size + byteCount before = offset + 1 :=
        ⟨c.utf8Size + byteCount before - 1, by omega⟩
      have hrest : offset + 1 - c.utf8Size = byteCount before := by omega
      rw [byteCount, hoffset, List.cons_append, cutAt?, if_pos (by omega), hrest, ih]
      rfl

/-- A cut loses nothing, and is made behind as many bytes as the offset says. -/
theorem eq_of_cutAt?
    {offset : Nat}
    {chars before after : List Char}
    (h : cutAt? offset chars = some (before, after)) :
    chars = before ++ after ∧ offset = byteCount before := by
  induction chars generalizing offset before after with
  | nil =>
      cases offset with
      | zero =>
          cases h
          exact ⟨rfl, rfl⟩
      | succ offset => cases h
  | cons c rest ih =>
      cases offset with
      | zero =>
          cases h
          exact ⟨rfl, rfl⟩
      | succ offset =>
          rw [cutAt?] at h
          split at h
          · rename_i hfits
            obtain ⟨⟨start, finish⟩, hcut, hsides⟩ := Option.map_eq_some_iff.1 h
            obtain ⟨hrest, hoffset⟩ := ih hcut
            cases hsides
            refine ⟨by rw [hrest, List.cons_append], ?_⟩
            change offset + 1 = c.utf8Size + byteCount start
            omega
          · cases h

/-- The byte offset at which a pattern occurs first. -/
def offsetOf? (pattern : List Char) : List Char → Option Nat
  | [] => if pattern = [] then some 0 else none
  | c :: rest =>
      if pattern <+: c :: rest then some 0 else (offsetOf? pattern rest).map (c.utf8Size + ·)

/-- Where a pattern is found, the text can be cut before and behind it. -/
theorem exists_of_offsetOf?
    {pattern chars : List Char}
    {offset : Nat}
    (h : offsetOf? pattern chars = some offset) :
    ∃ before after, chars = before ++ pattern ++ after ∧ offset = byteCount before := by
  induction chars generalizing offset with
  | nil =>
      rw [offsetOf?] at h
      split at h
      · rename_i hnil
        exact ⟨[], [], by simp [hnil], (Option.some.inj h).symm⟩
      · cases h
  | cons c rest ih =>
      rw [offsetOf?] at h
      split at h
      · rename_i hhere
        obtain ⟨after, hafter⟩ := hhere
        exact ⟨[], after, hafter.symm, (Option.some.inj h).symm⟩
      · obtain ⟨found, hfound, rfl⟩ := Option.map_eq_some_iff.1 h
        obtain ⟨before, after, rfl, rfl⟩ := ih hfound
        exact ⟨c :: before, after, rfl, rfl⟩

theorem offsetOf?_eq_none_iff
    {pattern chars : List Char} :
    offsetOf? pattern chars = none ↔ ¬ pattern <:+: chars := by
  induction chars with
  | nil =>
      rw [offsetOf?, List.infix_nil]
      split <;> simp_all
  | cons c rest ih =>
      rw [offsetOf?, List.infix_cons_iff, not_or, ← ih]
      split <;> simp_all

end Text
end TargetLint
