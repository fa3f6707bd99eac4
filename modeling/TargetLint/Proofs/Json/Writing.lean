import TargetLint.Proofs.Json.Scanner

/-!
# Every value is written in some way

The grammar leaves no token out: each has a lexeme, also a string that stands for no
text, so each value has a JSON text.
-/

namespace TargetLint
namespace Json

theorem exists_isHexDigit
    {value : Nat}
    (h : value < 16) :
    ∃ c, IsHexDigit c value :=
  ⟨_, _, List.getElem?_eq_getElem h, Or.inl rfl⟩

/-- Each code of sixteen bits is written with four digits. -/
theorem exists_isCode
    {code : Nat}
    (h : code < 0x10000) :
    ∃ digits, IsCode code digits := by
  obtain ⟨c₁, h₁⟩ : ∃ c, IsHexDigit c (code / 0x1000) := exists_isHexDigit (by omega)
  obtain ⟨c₂, h₂⟩ : ∃ c, IsHexDigit c (code / 0x100 % 16) := exists_isHexDigit (by omega)
  obtain ⟨c₃, h₃⟩ : ∃ c, IsHexDigit c (code / 0x10 % 16) := exists_isHexDigit (by omega)
  obtain ⟨c₄, h₄⟩ : ∃ c, IsHexDigit c (code % 16) := exists_isHexDigit (by omega)
  have hcode : code / 0x1000 * 0x1000 + code / 0x100 % 16 * 0x100 + code / 0x10 % 16 * 0x10 +
      code % 16 = code := by
    omega
  exact ⟨[c₁, c₂, c₃, c₄], hcode ▸ .digits h₁ h₂ h₃ h₄⟩

/-- A text without quotes, backslashes and control characters spells itself. -/
theorem spells_self
    {text : List Char}
    (h : text.all (IsPlain ·) = true) :
    Spells text text := by
  induction text with
  | nil => exact .nothing
  | cons c text ih =>
      rw [List.all_cons, Bool.and_eq_true, decide_eq_true_eq] at h
      exact .plain h.1 (ih h.2)

/-- Each text is spelled in some way, its control characters by their codes. -/
theorem exists_spells (text : List Char) : ∃ body, Spells body text := by
  induction text with
  | nil => exact ⟨[], .nothing⟩
  | cons c text ih =>
      obtain ⟨body, hbody⟩ := ih
      by_cases hcontrol : c.toNat < 0x20
      · obtain ⟨digits, hdigits⟩ := exists_isCode (Nat.lt_trans hcontrol (by decide))
        exact ⟨_, .code hdigits hbody⟩
      · by_cases hquote : c = '"'
        · exact ⟨_, .short (by simp [shortEscapes, hquote] : ('"', c) ∈ shortEscapes) hbody⟩
        · by_cases hescape : c = '\\'
          · exact ⟨_, .short (by simp [shortEscapes, hescape] : ('\\', c) ∈ shortEscapes) hbody⟩
          · exact ⟨_, .plain ⟨hquote, hescape, Nat.not_lt.1 hcontrol⟩ hbody⟩

/-- A literal has only one list of code units, the one that the scanner collects. -/
theorem Units.unique
    {body : List Char}
    {first second : List CodeUnit}
    (hfirst : Units body first)
    (hsecond : Units body second) :
    first = second := by
  have hrun := (run_units hfirst [] [] []).symm.trans (run_units hsecond [] [] [])
  simpa using hrun

/-- A string literal of one surrogate, which is half a character. -/
def loneSurrogate : List Char :=
  ['\\', 'u', 'd', '8', '0', '0']

theorem isCode_of_getElem?
    {a b c d : Nat}
    {first second third fourth : Char × Char}
    (h₁ : hexDigits[a]? = some first)
    (h₂ : hexDigits[b]? = some second)
    (h₃ : hexDigits[c]? = some third)
    (h₄ : hexDigits[d]? = some fourth) :
    IsCode (a * 0x1000 + b * 0x100 + c * 0x10 + d) [first.1, second.1, third.1, fourth.1] :=
  .digits ⟨first, h₁, .inl rfl⟩ ⟨second, h₂, .inl rfl⟩ ⟨third, h₃, .inl rfl⟩ ⟨fourth, h₄, .inl rfl⟩

theorem lexeme_loneSurrogate :
    Token.Lexeme (.string none) ('"' :: (loneSurrogate ++ ['"'])) := by
  have hcode : IsCode 0xD800 ['d', '8', '0', '0'] :=
    isCode_of_getElem? (a := 13) (b := 8) (c := 0) (d := 0) rfl rfl rfl rfl
  refine .noText (.code hcode .nothing) ?_
  intro text h
  obtain ⟨units, hunits, htext⟩ := h.exists_units
  have hhalf : Units loneSurrogate [.surrogate 0xD800] :=
    .half hcode (by decide) .nothing
  rw [hunits.unique hhalf] at htext
  cases htext

/-- Each token is written in some way. -/
theorem exists_lexeme : ∀ token : Token, ∃ lexeme, token.Lexeme lexeme
  | .openArray => ⟨_, .openArray⟩
  | .closeArray => ⟨_, .closeArray⟩
  | .openObject => ⟨_, .openObject⟩
  | .closeObject => ⟨_, .closeObject⟩
  | .comma => ⟨_, .comma⟩
  | .colon => ⟨_, .colon⟩
  | .null => ⟨_, .null⟩
  | .boolean true => ⟨_, .yes⟩
  | .boolean false => ⟨_, .no⟩
  | .number (.natural value) => ⟨_, .natural value⟩
  | .number .other => by
      refine ⟨['-', '0'], .other ⟨['-'], by simp, 0, [], [], .inl rfl, .inl rfl, ?_, rfl⟩⟩
      simp
  | .string none => ⟨_, lexeme_loneSurrogate⟩
  | .string (some text) => by
      obtain ⟨body, hbody⟩ := exists_spells text.toList
      exact ⟨_, .text hbody⟩

/-- Tokens are written by lexemes of them, each with a gap before it. -/
theorem written_flatMap
    {pieces : List (List Char × Token × List Char)}
    {gap : List Char}
    (h : ∀ piece ∈ pieces, IsGap piece.1 ∧ piece.2.1.Lexeme piece.2.2)
    (hgap : IsGap gap) :
    Written (pieces.map fun piece => piece.2.1)
      (pieces.flatMap (fun piece => piece.1 ++ piece.2.2) ++ gap) := by
  induction pieces with
  | nil => exact .nothing hgap
  | cons piece pieces ih =>
      rw [List.forall_mem_cons] at h
      simpa using Written.token h.1.1 h.1.2 (ih h.2)

/-- Each value has a JSON text. -/
theorem exists_isWritten (json : Json) : ∃ text, json.IsWritten text := by
  suffices h : ∀ tokens, ∃ chars, Written tokens chars by
    obtain ⟨chars, hchars⟩ := h json.tokens
    exact ⟨String.ofList chars, by rwa [IsWritten, String.toList_ofList]⟩
  intro tokens
  induction tokens with
  | nil => exact ⟨[], .nothing (by decide)⟩
  | cons token tokens ih =>
      obtain ⟨chars, hchars⟩ := ih
      obtain ⟨lexeme, hlexeme⟩ := exists_lexeme token
      exact ⟨_, .token (by decide : IsGap []) hlexeme hchars⟩

end Json
end TargetLint
