import TargetLint.Proofs.Json.Grammar
import Mathlib.Data.List.Chain

/-!
# The scanner finds the tokens that were written

A text that is written token by token is scanned into these tokens, whatever the gaps
and the lexemes are.  Only a number has no mark of its end, so what follows one has to
end it; in the tokens of a value, a comma or a closing bracket does.
-/

namespace TargetLint
namespace Json

namespace Scan

/-- The scanner after some characters, with all tokens so far, last first. -/
def run (state : Scan × List Token) (chars : List Char) : Option (Scan × List Token) :=
  chars.foldlM advance? state

variable {state : Scan × List Token} {next : Scan} {found done : List Token} {c : Char}

@[simp] theorem run_nil (state : Scan × List Token) : run state [] = some state :=
  rfl

theorem run_cons
    (h : state.1.step? c = some (next, found))
    (chars : List Char) :
    run state (c :: chars) = run (next, found.reverse ++ state.2) chars := by
  simp [run, advance?, h]

theorem run_append
    {first : List Char}
    {middle : Scan × List Token}
    (h : run state first = some middle)
    (second : List Char) :
    run state (first ++ second) = run middle second := by
  rw [run] at h
  rw [run, List.foldlM_append, h]
  rfl

end Scan

theorem hexValue?_of_isHexDigit
    {c : Char}
    {value : Nat}
    (h : IsHexDigit c value) :
    value < 16 ∧ hexValue? c = some value := by
  obtain ⟨forms, hforms, hc⟩ := h
  have hlt : value < 16 := (List.getElem?_eq_some_iff.1 hforms).1
  have htable : ∀ value < 16, ∀ forms ∈ hexDigits[value]?,
      hexValue? forms.1 = some value ∧ hexValue? forms.2 = some value := by decide
  obtain ⟨hsmall, hcapital⟩ := htable value hlt forms hforms
  rcases hc with rfl | rfl
  · exact ⟨hlt, hsmall⟩
  · exact ⟨hlt, hcapital⟩

theorem lt_of_isCode
    {code : Nat}
    {digits : List Char}
    (h : IsCode code digits) :
    code < 0x10000 := by
  obtain ⟨h₁, h₂, h₃, h₄⟩ := h
  have h₁ := (hexValue?_of_isHexDigit h₁).1
  have h₂ := (hexValue?_of_isHexDigit h₂).1
  have h₃ := (hexValue?_of_isHexDigit h₃).1
  have h₄ := (hexValue?_of_isHexDigit h₄).1
  omega

/-- The scanner reads an escaped code digit by digit. -/
theorem run_code
    {code : Nat}
    {digits : List Char}
    (h : IsCode code digits)
    (units : List CodeUnit)
    (done : List Token)
    (rest : List Char) :
    Scan.run (.string units, done) ('\\' :: 'u' :: (digits ++ rest)) =
      Scan.run (.string (.ofCode code :: units), done) rest := by
  obtain ⟨h₁, h₂, h₃, h₄⟩ := h
  rename_i c₁ c₂ c₃ c₄ d₁ d₂ d₃ d₄
  have hdigit : ∀ {c : Char} {value : Nat}, IsHexDigit c value → ∀ count before,
      Scan.step? (.hex units count before) c =
        if count = 3 then
          some (.string (.ofCode (before * 16 + value) :: units), [])
        else
          some (.hex units (count + 1) (before * 16 + value), []) := by
    intro c value hc count before
    simp only [Scan.step?, (hexValue?_of_isHexDigit hc).2]
    split <;> rfl
  have hcode : (((0 * 16 + d₁) * 16 + d₂) * 16 + d₃) * 16 + d₄ =
      d₁ * 0x1000 + d₂ * 0x100 + d₃ * 0x10 + d₄ := by
    omega
  have hescape : Scan.step? (.string units) '\\' = some (.escape units, []) := by
    simp [Scan.step?]
  have hmark : Scan.step? (.escape units) 'u' = some (.hex units 0 0, []) := by
    simp [Scan.step?]
  rw [Scan.run_cons hescape, Scan.run_cons hmark]
  simp only [List.cons_append, List.nil_append, List.reverse_nil]
  rw [Scan.run_cons (hdigit h₁ 0 0), Scan.run_cons (hdigit h₂ 1 _), Scan.run_cons (hdigit h₃ 2 _),
    Scan.run_cons (hdigit h₄ 3 _), hcode]
  rfl

/-- The code units of the characters between the quotes of a literal. -/
inductive Units : List Char → List CodeUnit → Prop where
  | nothing : Units [] []
  | plain
      {c : Char}
      {body : List Char}
      {units : List CodeUnit}
      (hc : IsPlain c)
      (rest : Units body units) :
      Units (c :: body) (.plain c :: units)
  | short
      {letter c : Char}
      {body : List Char}
      {units : List CodeUnit}
      (hc : (letter, c) ∈ shortEscapes)
      (rest : Units body units) :
      Units ('\\' :: letter :: body) (.plain c :: units)
  | letter
      {code : Nat}
      {digits body : List Char}
      {units : List CodeUnit}
      (hc : IsCode code digits)
      (hrange : ¬ (0xD800 ≤ code ∧ code < 0xE000))
      (rest : Units body units) :
      Units ('\\' :: 'u' :: (digits ++ body)) (.plain (Char.ofNat code) :: units)
  | half
      {code : Nat}
      {digits body : List Char}
      {units : List CodeUnit}
      (hc : IsCode code digits)
      (hrange : 0xD800 ≤ code ∧ code < 0xE000)
      (rest : Units body units) :
      Units ('\\' :: 'u' :: (digits ++ body)) (.surrogate code :: units)

theorem step?_plain
    {c : Char}
    (h : IsPlain c)
    (units : List CodeUnit) :
    Scan.step? (.string units) c = some (.string (.plain c :: units), []) := by
  obtain ⟨hquote, hescape, hcontrol⟩ := h
  simp only [Scan.step?, if_neg hquote, if_neg hescape, if_neg (Nat.not_lt.2 hcontrol)]

theorem step?_short
    {letter c : Char}
    (h : (letter, c) ∈ shortEscapes)
    (units : List CodeUnit) :
    Scan.step? (.escape units) letter = some (.string (.plain c :: units), []) := by
  have htable : ∀ forms ∈ shortEscapes, forms.1 ≠ 'u' ∧ escapedChar? forms.1 = some forms.2 := by
    decide
  obtain ⟨hletter, hvalue⟩ := htable _ h
  simp only [Scan.step?, if_neg hletter, hvalue, Option.map_some]

/-- Between quotes, the scanner collects the code units. -/
theorem run_units
    {body : List Char}
    {units : List CodeUnit}
    (h : Units body units)
    (before : List CodeUnit)
    (done : List Token)
    (rest : List Char) :
    Scan.run (.string before, done) (body ++ rest) =
      Scan.run (.string (units.reverse ++ before), done) rest := by
  induction h generalizing before with
  | nothing => rfl
  | plain hc _ ih =>
      rw [List.cons_append, Scan.run_cons (step?_plain hc before)]
      simpa using ih _
  | short hc _ ih =>
      have hescape : Scan.step? (.string before) '\\' = some (.escape before, []) := by
        simp [Scan.step?]
      rw [List.cons_append, List.cons_append, Scan.run_cons hescape,
        Scan.run_cons (step?_short hc before)]
      simpa using ih _
  | letter hc hrange _ ih =>
      rw [List.cons_append, List.cons_append, List.append_assoc, run_code hc, CodeUnit.ofCode,
        if_neg hrange]
      simpa using ih _
  | half hc hrange _ ih =>
      rw [List.cons_append, List.cons_append, List.append_assoc, run_code hc, CodeUnit.ofCode,
        if_pos hrange]
      simpa using ih _

theorem IsLiteral.exists_units
    {body : List Char}
    (h : IsLiteral body) :
    ∃ units, Units body units := by
  induction h with
  | nothing => exact ⟨[], .nothing⟩
  | plain hc _ ih =>
      obtain ⟨units, hunits⟩ := ih
      exact ⟨_, .plain hc hunits⟩
  | short hc _ ih =>
      obtain ⟨units, hunits⟩ := ih
      exact ⟨_, .short hc hunits⟩
  | @code code _ _ hc _ ih =>
      obtain ⟨units, hunits⟩ := ih
      by_cases hrange : 0xD800 ≤ code ∧ code < 0xE000
      · exact ⟨_, .half hc hrange hunits⟩
      · exact ⟨_, .letter hc hrange hunits⟩

/-- A spelling of a text has code units that make up this text. -/
theorem Spells.exists_units
    {body text : List Char}
    (h : Spells body text) :
    ∃ units, Units body units ∧ CodeUnit.text? units = some text := by
  induction h with
  | nothing => exact ⟨[], .nothing, rfl⟩
  | plain hc _ ih =>
      obtain ⟨units, hunits, htext⟩ := ih
      exact ⟨_, .plain hc hunits, by simp [CodeUnit.text?, htext]⟩
  | short hc _ ih =>
      obtain ⟨units, hunits, htext⟩ := ih
      exact ⟨_, .short hc hunits, by simp [CodeUnit.text?, htext]⟩
  | @code c _ _ _ hc _ ih =>
      obtain ⟨units, hunits, htext⟩ := ih
      have hrange : ¬ (0xD800 ≤ c.toNat ∧ c.toNat < 0xE000) := by
        have hvalid : c.toNat.isValidChar := c.valid
        simp only [Nat.isValidChar] at hvalid
        omega
      exact ⟨_, .letter hc hrange hunits, by simp [CodeUnit.text?, htext, Char.ofNat_toNat]⟩
  | @pair c high low _ _ _ _ hhigh hlow highRange lowRange hc _ ih =>
      obtain ⟨units, hunits, htext⟩ := ih
      refine ⟨.surrogate high :: .surrogate low :: units,
        .half hhigh (by omega) (.half hlow (by omega) hunits), ?_⟩
      rw [CodeUnit.text?, if_pos ⟨highRange.2, lowRange.1⟩, htext, ← hc, Char.ofNat_toNat]
      rfl

/-- Code units that make up a text come from a spelling of this text. -/
theorem Units.spells
    {body text : List Char}
    {units : List CodeUnit}
    (h : Units body units)
    (htext : CodeUnit.text? units = some text) :
    Spells body text := by
  have htoNat : ∀ {code : Nat}, code.isValidChar → (Char.ofNat code).toNat = code := by
    intro code hvalid
    rw [Char.ofNat, dif_pos hvalid]
    rfl
  induction units using CodeUnit.text?.induct generalizing body text with
  | case1 =>
      obtain rfl := Option.some.inj htext
      cases h
      exact .nothing
  | case2 c rest ih =>
      rw [CodeUnit.text?] at htext
      obtain ⟨others, hothers, rfl⟩ := Option.map_eq_some_iff.1 htext
      cases h with
      | plain hc hrest => exact .plain hc (ih hrest hothers)
      | short hc hrest => exact .short hc (ih hrest hothers)
      | letter hc hrange hrest =>
          have hlt := lt_of_isCode hc
          refine .code ?_ (ih hrest hothers)
          rwa [htoNat (by simp only [Nat.isValidChar]; omega)]
  | case3 high low rest hrange ih =>
      rw [CodeUnit.text?, if_pos hrange] at htext
      obtain ⟨others, hothers, rfl⟩ := Option.map_eq_some_iff.1 htext
      obtain _ | _ | _ | _ | ⟨hhigh, highRange, hrest⟩ := h
      obtain _ | _ | _ | _ | ⟨hlow, lowRange, hrest⟩ := hrest
      refine .pair hhigh hlow ⟨highRange.1, hrange.1⟩ ⟨hrange.2, lowRange.2⟩ ?_ (ih hrest hothers)
      rw [htoNat (by simp only [Nat.isValidChar]; omega)]
  | case4 high low rest hrange =>
      rw [CodeUnit.text?, if_neg hrange] at htext
      cases htext
  | case5 code rest hrest =>
      rw [CodeUnit.text?] at htext
      · cases htext
      · exact hrest

namespace NumberPart

/-- The part after the digits of a whole number. -/
def ofWhole (negative : Bool) (value : Nat) : NumberPart :=
  if value = 0 then .zero negative else .whole negative value

theorem number?_ofWhole
    (negative : Bool)
    (value : Nat) :
    (ofWhole negative value).number? = some (if negative then .other else .natural value) := by
  by_cases hzero : value = 0
  · cases negative <;> simp [ofWhole, number?, hzero]
  · cases negative <;> simp [ofWhole, number?, hzero]

theorem next?_ofWhole
    {c : Char}
    (hc : digitValue? c = none)
    (negative : Bool)
    (value : Nat) :
    (ofWhole negative value).next? c = afterWhole? c := by
  rw [ofWhole]
  split
  · rfl
  · simp [next?, hc]

/-- The character continues no number, however far the number is. -/
def IsEndedBy (c : Char) : Prop :=
  ∀ part : NumberPart, part.next? c = none

/-- What may follow a value or stand between tokens ends a number. -/
theorem isEndedBy_of_mem
    {c : Char}
    (hc : c ∈ [' ', '\t', '\n', '\r', ',', ']', '\x7d']) :
    IsEndedBy c := by
  intro part
  simp only [List.mem_cons, List.not_mem_nil, or_false] at hc
  rcases hc with rfl | rfl | rfl | rfl | rfl | rfl | rfl <;> cases part <;> rfl

end NumberPart

open NumberPart (ofWhole)

/-- The scanner reads a whole number once it takes the first digit for one. -/
theorem run_toDigits
    {start : Scan}
    {negative : Bool}
    (hstart : ∀ digit < 10,
      start.step? (Nat.digitChar digit) = some (.number (ofWhole negative digit), []))
    (done : List Token)
    (value : Nat) :
    Scan.run (start, done) (Nat.toDigits 10 value) =
      some (.number (ofWhole negative value), done) := by
  have hdigit : ∀ digit < 10, digitValue? (Nat.digitChar digit) = some digit := by
    decide
  induction value using Nat.strongRecOn with
  | ind value ih =>
      by_cases hsmall : value < 10
      · rw [Nat.toDigits_of_lt_base hsmall, Scan.run_cons (hstart value hsmall)]
        rfl
      · have hlast : value % 10 < 10 := Nat.mod_lt _ (by omega)
        have hfirst : value / 10 ≠ 0 := by omega
        have hstep : Scan.step? (.number (ofWhole negative (value / 10)))
            (Nat.digitChar (value % 10)) = some (.number (ofWhole negative value), []) := by
          have hvalue : value / 10 * 10 + value % 10 = value := by omega
          have hne : value ≠ 0 := by omega
          simp only [ofWhole, if_neg hfirst, if_neg hne, Scan.step?, NumberPart.next?,
            hdigit _ hlast, hvalue]
        rw [Nat.toDigits_of_base_le (by omega) (by omega),
          Scan.run_append (ih (value / 10) (by omega)), Scan.run_cons hstep]
        rfl

theorem run_digits
    {before after : NumberPart}
    {digits : List Char}
    (h : IsDigits digits)
    (hfirst : ∀ c, (digitValue? c).isSome → before.next? c = some after)
    (hmore : ∀ c, (digitValue? c).isSome → after.next? c = some after)
    (done : List Token) :
    Scan.run (.number before, done) digits = some (.number after, done) := by
  obtain ⟨hne, hdigits⟩ := h
  have hsome : ∀ c ∈ digits, (digitValue? c).isSome := by
    intro c hc
    simp [digitValue?, hdigits c hc]
  have hrest : ∀ rest : List Char, (∀ c ∈ rest, (digitValue? c).isSome) →
      Scan.run (.number after, done) rest = some (.number after, done) := by
    intro rest
    induction rest with
    | nil => exact fun _ => rfl
    | cons c rest ih =>
        intro hrest
        have hstep : Scan.step? (.number after) c = some (.number after, []) := by
          simp only [Scan.step?, hmore c (hrest c (List.mem_cons_self ..))]
        rw [Scan.run_cons hstep]
        exact ih fun d hd => hrest d (List.mem_cons_of_mem _ hd)
  cases digits with
  | nil => exact absurd rfl hne
  | cons c rest =>
      have hstep : Scan.step? (.number before) c = some (.number after, []) := by
        simp only [Scan.step?, hfirst c (hsome c (List.mem_cons_self ..))]
      rw [Scan.run_cons hstep]
      exact hrest rest fun d hd => hsome d (List.mem_cons_of_mem _ hd)

theorem run_fraction
    {chars : List Char}
    (h : IsFraction chars)
    (negative : Bool)
    (value : Nat)
    (done : List Token) :
    Scan.run (.number (ofWhole negative value), done) chars =
      some (.number (if chars = [] then ofWhole negative value else .fraction), done) := by
  rcases h with rfl | ⟨digits, hdigits, rfl⟩
  · rfl
  · have hpoint : Scan.step? (.number (ofWhole negative value)) '.' =
        some (.number .point, []) := by
      have hnext := NumberPart.next?_ofWhole (c := '.') rfl negative value
      simp only [Scan.step?, hnext]
      rfl
    have hfirst : ∀ c, (digitValue? c).isSome → NumberPart.point.next? c = some .fraction := by
      intro c hc
      obtain ⟨digit, hdigit⟩ := Option.isSome_iff_exists.1 hc
      simp [NumberPart.next?, hdigit]
    have hmore : ∀ c, (digitValue? c).isSome → NumberPart.fraction.next? c = some .fraction := by
      intro c hc
      simp [NumberPart.next?, hc]
    rw [Scan.run_cons hpoint]
    exact run_digits hdigits hfirst hmore done

theorem run_exponent
    {chars : List Char}
    (h : IsExponent chars)
    {part : NumberPart}
    (hpart : ∀ mark ∈ ['e', 'E'], part.next? mark = some .exponentMark)
    (done : List Token) :
    Scan.run (.number part, done) chars =
      some (.number (if chars = [] then part else .exponent), done) := by
  have hdigit : ∀ before ∈ [NumberPart.exponentMark, .exponentSign, .exponent], ∀ c,
      (digitValue? c).isSome → before.next? c = some .exponent := by
    intro before hbefore c hc
    obtain ⟨digit, hdigit⟩ := Option.isSome_iff_exists.1 hc
    have hsign : ¬ (c = '+' ∨ c = '-') := by
      rintro (rfl | rfl) <;> cases hdigit
    simp only [List.mem_cons, List.not_mem_nil, or_false] at hbefore
    rcases hbefore with rfl | rfl | rfl <;> simp [NumberPart.next?, hdigit, hsign]
  rcases h with rfl | ⟨mark, hmark, sign, hsign, digits, hdigits, rfl⟩
  · rfl
  · have hstep : Scan.step? (.number part) mark = some (.number .exponentMark, []) := by
      simp only [Scan.step?, hpart mark hmark]
    rw [Scan.run_cons hstep]
    simp only [List.mem_cons, List.not_mem_nil, or_false] at hsign
    rcases hsign with rfl | rfl | rfl
    · exact run_digits hdigits (hdigit _ (by simp)) (hdigit _ (by simp)) done
    · exact run_digits hdigits (hdigit .exponentSign (by simp)) (hdigit _ (by simp)) done
    · exact run_digits hdigits (hdigit .exponentSign (by simp)) (hdigit _ (by simp)) done

theorem run_signed
    {sign : List Char}
    (h : sign ∈ [[], ['-']])
    (value : Nat)
    (done : List Token) :
    Scan.run (.between, done) (sign ++ Nat.toDigits 10 value) =
      some (.number (ofWhole (decide (sign ≠ [])) value), done) := by
  simp only [List.mem_cons, List.not_mem_nil, or_false] at h
  rcases h with rfl | rfl
  · exact run_toDigits (by decide) done value
  · have hminus : Scan.step? .between '-' = some (.number .sign, []) := rfl
    rw [List.cons_append, Scan.run_cons hminus]
    exact run_toDigits (by decide) done value

/-- A number with a sign, a fraction or an exponent is scanned to its end. -/
theorem run_otherNumber
    {chars : List Char}
    (h : IsOtherNumber chars)
    (done : List Token) :
    ∃ part : NumberPart, part.number? = some .other ∧
      Scan.run (.between, done) chars = some (.number part, done) := by
  obtain ⟨sign, hsign, value, fraction, exponent, hfraction, hexponent, hother, rfl⟩ := h
  have hmark : ∀ mark ∈ ['e', 'E'],
      (if fraction = [] then ofWhole (decide (sign ≠ [])) value else .fraction).next? mark =
        some .exponentMark := by
    intro mark hmark
    simp only [List.mem_cons, List.not_mem_nil, or_false] at hmark
    split
    · rcases hmark with rfl | rfl <;> exact NumberPart.next?_ofWhole rfl _ value
    · rcases hmark with rfl | rfl <;> rfl
  refine ⟨if exponent = [] then
      if fraction = [] then ofWhole (decide (sign ≠ [])) value else .fraction
    else .exponent, ?_, ?_⟩
  · split
    · split
      · have hnegative : decide (sign ≠ []) = true := by simp_all
        rw [NumberPart.number?_ofWhole, if_pos hnegative]
      · rfl
    · rfl
  · rw [← List.append_assoc, Scan.run_append (run_signed hsign value done),
      Scan.run_append (run_fraction hfraction _ value done)]
    exact run_exponent hexponent hmark done

namespace Token

/-- The token is a number. -/
def isNumber : Token → Bool
  | .number _ => true
  | _ => false

/-- The token may directly follow a number. -/
def endsNumber : Token → Bool
  | .comma => true
  | .closeArray => true
  | .closeObject => true
  | _ => false

/-- The second token may follow the first without a gap. -/
def MayFollow (first second : Token) : Prop :=
  first.isNumber = true → second.endsNumber = true

end Token

/-- The scanner has found the tokens, or will have as soon as a number is over. -/
inductive Scan.HasFound : Scan × List Token → List Token → Prop where
  | all (done : List Token) : HasFound (.between, done) done
  | allButNumber
      {part : NumberPart}
      {value : Number}
      (h : part.number? = some value)
      (done : List Token) :
      HasFound (.number part, done) (.number value :: done)

/-- Any lexeme of a token makes the scanner find the token. -/
theorem run_lexeme
    {token : Token}
    {lexeme : List Char}
    (h : token.Lexeme lexeme)
    (done : List Token) :
    ∃ state, Scan.run (.between, done) lexeme = some state ∧ Scan.HasFound state (token :: done) ∧
      (token.isNumber = true ∨ state.1 = .between) := by
  have hquoted : ∀ {body : List Char} {units : List CodeUnit}, Units body units →
      Scan.run (.between, done) ('"' :: (body ++ ['"'])) =
        some (.between, .string ((CodeUnit.text? units).map String.ofList) :: done) := by
    intro body units hunits
    have hopen : Scan.step? .between '"' = some (.string [], []) := rfl
    have hclose : Scan.step? (.string units.reverse) '"' =
        some (.between, [.string ((CodeUnit.text? units).map String.ofList)]) := by
      simp [Scan.step?]
    rw [Scan.run_cons hopen, run_units hunits, List.append_nil, Scan.run_cons hclose]
    rfl
  cases h with
  | natural value =>
      have hvalue := NumberPart.number?_ofWhole false value
      exact ⟨_, run_toDigits (by decide) done value, .allButNumber hvalue done, Or.inl rfl⟩
  | other hnumber =>
      obtain ⟨part, hvalue, hrun⟩ := run_otherNumber hnumber done
      exact ⟨_, hrun, .allButNumber hvalue done, Or.inl rfl⟩
  | @text body text hspells =>
      obtain ⟨units, hunits, htext⟩ := hspells.exists_units
      refine ⟨_, hquoted hunits, ?_, Or.inr rfl⟩
      rw [htext, Option.map_some, String.ofList_toList]
      exact .all _
  | @noText body hliteral hnone =>
      obtain ⟨units, hunits⟩ := hliteral.exists_units
      have htext : CodeUnit.text? units = none := by
        rw [Option.eq_none_iff_forall_ne_some]
        exact fun text htext => hnone text (hunits.spells htext)
      refine ⟨_, hquoted hunits, ?_, Or.inr rfl⟩
      rw [htext]
      exact .all _
  | _ => exact ⟨_, rfl, .all _, Or.inr rfl⟩

/-- The tokens that are found in the end, given the state of the scanner and what is left. -/
def tokensFrom? (state : Scan × List Token) (chars : List Char) : Option (List Token) := do
  let (scan, done) ← Scan.run state chars
  let rest ← scan.finish?
  return done.reverse ++ rest

theorem tokensFrom?_append
    {state next : Scan × List Token}
    {first : List Char}
    (h : Scan.run state first = some next)
    (second : List Char) :
    tokensFrom? state (first ++ second) = tokensFrom? next second := by
  rw [tokensFrom?, Scan.run_append h]
  rfl

theorem tokensFrom?_gap
    {gap : List Char}
    (h : IsGap gap)
    (done : List Token)
    (chars : List Char) :
    tokensFrom? (.between, done) (gap ++ chars) = tokensFrom? (.between, done) chars := by
  have hrun : Scan.run (.between, done) gap = some (.between, done) := by
    induction gap with
    | nil => rfl
    | cons c rest ih =>
        have hstep : Scan.step? .between c = some (.between, []) := by
          have hc := h c (List.mem_cons_self ..)
          simp only [List.mem_cons, List.not_mem_nil, or_false] at hc
          rcases hc with rfl | rfl | rfl | rfl <;> rfl
        rw [Scan.run_cons hstep]
        exact ih fun d hd => h d (List.mem_cons_of_mem _ hd)
  exact tokensFrom?_append hrun chars

/-- A number is over where the text is, or at a character that ends it. -/
theorem tokensFrom?_of_hasFound
    {state : Scan × List Token}
    {done : List Token}
    {chars : List Char}
    (hfound : Scan.HasFound state done)
    (hchars : ∀ c ∈ chars.head?, NumberPart.IsEndedBy c) :
    tokensFrom? state chars = tokensFrom? (.between, done) chars := by
  cases hfound with
  | all => rfl
  | @allButNumber part value hvalue done =>
      cases chars with
      | nil => simp [tokensFrom?, Scan.finish?, hvalue]
      | cons c rest =>
          have hnext : part.next? c = none := hchars c rfl part
          have hstep : Scan.advance? (.number part, done) c =
              Scan.advance? (.between, .number value :: done) c := by
            simp only [Scan.advance?, Scan.step?, hnext, hvalue]
            cases Scan.begin? c <;> simp
          simp only [tokensFrom?, Scan.run, List.foldlM_cons, hstep]

theorem isEndedBy_head_gap
    {gap : List Char}
    (h : IsGap gap) :
    ∀ c ∈ gap.head?, NumberPart.IsEndedBy c := by
  intro c hc
  refine NumberPart.isEndedBy_of_mem ?_
  have hgap := h c (List.mem_of_mem_head? hc)
  simp only [List.mem_cons, List.not_mem_nil, or_false] at hgap ⊢
  rcases hgap with rfl | rfl | rfl | rfl <;> simp

theorem isEndedBy_head_lexeme
    {token : Token}
    {lexeme : List Char}
    (h : token.Lexeme lexeme)
    (hends : token.endsNumber = true)
    (chars : List Char) :
    ∀ c ∈ (lexeme ++ chars).head?, NumberPart.IsEndedBy c := by
  intro c hc
  refine NumberPart.isEndedBy_of_mem ?_
  cases h with
  | closeArray | closeObject | comma =>
      obtain rfl := Option.some.inj hc
      simp
  | _ => cases hends

/-- Written tokens are found, if no number is directly followed by what does not end it. -/
theorem tokensFrom?_of_written
    {tokens : List Token}
    {chars : List Char}
    (h : Written tokens chars)
    (hfollow : tokens.IsChain Token.MayFollow)
    {state : Scan × List Token}
    {done : List Token}
    (hfound : Scan.HasFound state done)
    (hstart : state.1 = .between ∨ ∀ token ∈ tokens.head?, token.endsNumber = true) :
    tokensFrom? state chars = some (done.reverse ++ tokens) := by
  induction h generalizing state done with
  | @nothing gap hgap =>
      have hnone := tokensFrom?_gap hgap done []
      rw [List.append_nil] at hnone
      rw [tokensFrom?_of_hasFound hfound (isEndedBy_head_gap hgap), hnone]
      simp [tokensFrom?, Scan.finish?]
  | @token token tokens gap lexeme chars hgap hlexeme _ ih =>
      rw [List.isChain_cons] at hfollow
      have hover : tokensFrom? state (gap ++ (lexeme ++ chars)) =
          tokensFrom? (.between, done) (gap ++ (lexeme ++ chars)) := by
        rcases hstart with hbetween | hends
        · cases hfound with
          | all => rfl
          | allButNumber => cases hbetween
        · refine tokensFrom?_of_hasFound hfound ?_
          cases gap with
          | nil => exact isEndedBy_head_lexeme hlexeme (hends token rfl) chars
          | cons c rest => exact fun d hd => isEndedBy_head_gap hgap d hd
      obtain ⟨next, hrun, hnext, hnumber⟩ := run_lexeme hlexeme done
      rw [hover, tokensFrom?_gap hgap, tokensFrom?_append hrun, ih hfollow.2 hnext]
      · simp
      · rcases hnumber with hnumber | hbetween
        · exact Or.inr fun other hother => hfollow.1 other hother hnumber
        · exact Or.inl hbetween

/-- The scanner finds the tokens of a written text. -/
theorem tokens?_of_written
    {tokens : List Token}
    {chars : List Char}
    (h : Written tokens chars)
    (hfollow : tokens.IsChain Token.MayFollow) :
    tokens? chars = some tokens :=
  tokensFrom?_of_written h hfollow (.all []) (Or.inl rfl)

end Json
end TargetLint
