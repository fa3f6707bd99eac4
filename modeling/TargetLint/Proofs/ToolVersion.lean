import TargetLint.CheckMode
import TargetLint.Proofs.Text.Decimal
import Mathlib.Data.Option.Basic

/-!
# Versions in a text

A version is read at the leftmost place where a whole numeral, a point and a digit stand together,
and nothing else in the text matters.  A text has a version unless there is no such place, or its
major or minor number does not fit a word.  So the version that is printed is found again within
any words that have no digits ahead of it and do not carry it on.  What a later version calls for
is what a version not after it calls for, as far as checking goes.
-/

namespace TargetLint
namespace ToolVersion

variable {chars digits rest : List Char}

theorem splitDigits_append (h : Text.IsNumeral digits rest) :
    splitDigits (digits ++ rest) = (digits, rest) :=
  Prod.ext h.takeWhile_append h.dropWhile_append

theorem splitDigits_eq_iff (h : digits ≠ []) :
    splitDigits chars = (digits, rest) ↔ chars = digits ++ rest ∧ Text.IsNumeral digits rest := by
  constructor
  · intro hsplit
    obtain ⟨rfl, rfl⟩ := Prod.mk.injEq .. ▸ hsplit
    exact ⟨List.takeWhile_append_dropWhile.symm, Text.IsNumeral.of_takeWhile h⟩
  · rintro ⟨rfl, hnumeral⟩
    exact splitDigits_append hnumeral

theorem afterPoint?_point (chars : List Char) :
    afterPoint? ('.' :: chars) =
      if (splitDigits chars).1 = [] then none else some (splitDigits chars) :=
  rfl

theorem afterPoint?_eq_some_iff :
    afterPoint? chars = some (digits, rest) ↔
      chars = '.' :: (digits ++ rest) ∧ Text.IsNumeral digits rest := by
  constructor
  · intro h
    unfold afterPoint? at h
    split at h
    case h_1 after =>
      change afterPoint? ('.' :: after) = some (digits, rest) at h
      rw [afterPoint?_point, Option.ite_none_left_eq_some, Option.some.injEq] at h
      obtain ⟨hdigits, hsplit⟩ := h
      rw [hsplit] at hdigits
      obtain ⟨rfl, hnumeral⟩ := (splitDigits_eq_iff hdigits).1 hsplit
      exact ⟨rfl, hnumeral⟩
    case h_2 => cases h
  · rintro ⟨rfl, hnumeral⟩
    rw [afterPoint?_point, splitDigits_append hnumeral, if_neg hnumeral.ne_nil]

/-- Without a digit behind a point in front of a text, there is no further number. -/
theorem afterPoint?_eq_none
    (h : ∀ c others, chars = '.' :: c :: others → c.isDigit = false) :
    afterPoint? chars = none := by
  cases hafter : afterPoint? chars with
  | none => rfl
  | some found =>
      obtain ⟨rfl, hnumeral⟩ := afterPoint?_eq_some_iff.1 hafter
      obtain ⟨c, others, hdigits⟩ := List.exists_cons_of_ne_nil hnumeral.ne_nil
      have hdigit : c.isDigit = true := hnumeral.isDigit c (by simp [hdigits])
      rw [h c (others ++ found.2) (by simp [hdigits])] at hdigit
      cases hdigit

theorem digitsAt?_eq (chars : List Char) :
    digitsAt? chars =
      if (splitDigits chars).1 = [] then
        none
      else
        (afterPoint? (splitDigits chars).2).map fun minor =>
          ((splitDigits chars).1, minor.1, (afterPoint? minor.2).map Prod.fst) := by
  rw [digitsAt?]
  by_cases hmajor : (splitDigits chars).1 = []
  · rw [if_pos hmajor]
    simp [guard, hmajor]
  · rw [if_neg hmajor]
    cases hminor : afterPoint? (splitDigits chars).2 <;> simp [guard, hmajor, hminor]

theorem digitsAt?_eq_some_iff
    {major minor : List Char}
    {patch : Option (List Char)} :
    digitsAt? chars = some (major, minor, patch) ↔
      ∃ after, chars = major ++ '.' :: (minor ++ after) ∧
        Text.IsNumeral major ('.' :: (minor ++ after)) ∧ Text.IsNumeral minor after ∧
        patch = (afterPoint? after).map Prod.fst := by
  rw [digitsAt?_eq]
  constructor
  · intro h
    obtain ⟨hmajor, hfound⟩ := Option.ite_none_left_eq_some.1 h
    obtain ⟨⟨second, after⟩, hafter, hnumbers⟩ := Option.map_eq_some_iff.1 hfound
    simp only [Prod.mk.injEq] at hnumbers
    obtain ⟨rfl, rfl, rfl⟩ := hnumbers
    obtain ⟨hpoint, hminor⟩ := afterPoint?_eq_some_iff.1 hafter
    have hsplit : splitDigits chars = ((splitDigits chars).1, '.' :: (second ++ after)) :=
      Prod.ext rfl hpoint
    obtain ⟨hchars, hnumeral⟩ := (splitDigits_eq_iff hmajor).1 hsplit
    exact ⟨after, hchars, hnumeral, hminor, rfl⟩
  · rintro ⟨after, rfl, hmajor, hminor, rfl⟩
    have hafter : afterPoint? ('.' :: (minor ++ after)) = some (minor, after) :=
      afterPoint?_eq_some_iff.2 ⟨rfl, hminor⟩
    rw [splitDigits_append hmajor, if_neg hmajor.ne_nil, hafter]
    rfl

/-- A place in a text where two numerals stand with a point between them. -/
structure Place where
  before : List Char
  major : List Char
  minor : List Char
  after : List Char

namespace Place

/-- The text from the major number on. -/
def onward (place : Place) : List Char :=
  place.major ++ '.' :: (place.minor ++ place.after)

/-- The whole text. -/
def text (place : Place) : List Char :=
  place.before ++ place.onward

/-- No digit next to the numerals is left out. -/
structure IsWhole (place : Place) : Prop where
  ahead : ∀ c, place.before.getLast? = some c → c.isDigit = false
  major : Text.IsNumeral place.major ('.' :: (place.minor ++ place.after))
  minor : Text.IsNumeral place.minor place.after

/-- The place is one of the text, and no other one of the text is further left. -/
structure IsLeftmost (place : Place) (chars : List Char) : Prop where
  text : place.text = chars
  whole : place.IsWhole
  least : ∀ other : Place, other.text = chars → other.IsWhole →
    place.before.length ≤ other.before.length

/-- The numbers at a place tell a version.  A patch number is told where a point and a numeral
follow that fits a word. -/
structure Tells (place : Place) (version : ToolVersion) : Prop where
  major : Text.digitsValue place.major = version.major.toNat
  minor : Text.digitsValue place.minor = version.minor.toNat
  patch : ∀ patch, version.patch = some patch ↔
    ∃ digits rest, place.after = '.' :: (digits ++ rest) ∧ Text.IsNumeral digits rest ∧
      Text.digitsValue digits = patch.toNat

variable {place other : Place}

theorem IsWhole.digitsAt?_onward (h : place.IsWhole) :
    digitsAt? place.onward =
      some (place.major, place.minor, (afterPoint? place.after).map Prod.fst) :=
  digitsAt?_eq_some_iff.2 ⟨place.after, rfl, h.major, h.minor, rfl⟩

theorem IsLeftmost.unique
    (h : place.IsLeftmost chars)
    (hother : other.IsLeftmost chars) :
    place = other := by
  have hlength : place.before.length = other.before.length :=
    Nat.le_antisymm (h.least other hother.text hother.whole)
      (hother.least place h.text h.whole)
  have htext : place.before ++ place.onward = other.before ++ other.onward :=
    h.text.trans hother.text.symm
  obtain ⟨hbefore, honward⟩ := List.append_inj htext hlength
  have hnumbers := h.whole.digitsAt?_onward
  rw [honward, hother.whole.digitsAt?_onward, Option.some.injEq, Prod.mk.injEq,
    Prod.mk.injEq] at hnumbers
  obtain ⟨hmajor, hminor, -⟩ := hnumbers
  rw [onward, onward, hmajor, hminor, List.append_cancel_left_eq, List.cons.injEq,
    List.append_cancel_left_eq] at honward
  cases place
  cases other
  simp_all

end Place

theorem findDigits?_eq_none_iff :
    findDigits? chars = none ↔ ∀ before rest, chars = before ++ rest → digitsAt? rest = none := by
  induction chars with
  | nil =>
      refine iff_of_true rfl ?_
      intro before rest hsplit
      obtain ⟨-, rfl⟩ := List.append_eq_nil_iff.1 hsplit.symm
      rfl
  | cons c chars ih =>
      rw [findDigits?, Option.or_eq_none_iff, ih]
      constructor
      · rintro ⟨hhere, hlater⟩ before rest hsplit
        rcases List.cons_eq_append_iff.1 hsplit with ⟨-, rfl⟩ | ⟨between, -, hrest⟩
        · exact hhere
        · exact hlater between rest hrest
      · intro h
        refine ⟨h [] _ rfl, ?_⟩
        intro before rest hsplit
        exact h (c :: before) rest (by rw [hsplit]; rfl)

/-- The search finds what stands at the first place where anything is found. -/
theorem exists_of_findDigits?
    {numbers : List Char × List Char × Option (List Char)}
    (h : findDigits? chars = some numbers) :
    ∃ before rest, chars = before ++ rest ∧ digitsAt? rest = some numbers ∧
      ∀ ahead behind, chars = ahead ++ behind → ahead.length < before.length →
        digitsAt? behind = none := by
  induction chars with
  | nil => cases h
  | cons c chars ih =>
      rw [findDigits?, Option.or_eq_some_iff] at h
      rcases h with hhere | ⟨hnot, hlater⟩
      · refine ⟨[], c :: chars, rfl, hhere, ?_⟩
        intro ahead behind _ hlength
        exact absurd hlength (Nat.not_lt_zero _)
      · obtain ⟨before, rest, rfl, hrest, hleast⟩ := ih hlater
        refine ⟨c :: before, rest, rfl, hrest, ?_⟩
        intro ahead behind hsplit hlength
        rcases List.cons_eq_append_iff.1 hsplit with ⟨-, rfl⟩ | ⟨between, rfl, hbehind⟩
        · exact hnot
        · exact hleast between behind hbehind (Nat.lt_of_succ_lt_succ hlength)

/-- The search finds the numbers of the leftmost place. -/
theorem exists_isLeftmost_of_findDigits?
    {numbers : List Char × List Char × Option (List Char)}
    (h : findDigits? chars = some numbers) :
    ∃ place : Place, place.IsLeftmost chars ∧
      numbers = (place.major, place.minor, (afterPoint? place.after).map Prod.fst) := by
  obtain ⟨before, rest, hchars, hfound, hleast⟩ := exists_of_findDigits? h
  obtain ⟨major, minor, patch⟩ := numbers
  obtain ⟨after, rfl, hmajor, hminor, rfl⟩ := digitsAt?_eq_some_iff.1 hfound
  refine ⟨⟨before, major, minor, after⟩, ⟨hchars.symm, ⟨?_, hmajor, hminor⟩, ?_⟩, rfl⟩
  · intro c hlast
    obtain ⟨ahead, rfl⟩ := List.getLast?_eq_some_iff.1 hlast
    cases hdigit : c.isDigit with
    | false => rfl
    | true =>
        have hlonger := digitsAt?_eq_some_iff.2 ⟨after, rfl, hmajor.cons hdigit, hminor, rfl⟩
        have hnone := hleast ahead (c :: (major ++ '.' :: (minor ++ after)))
          (by simpa using hchars) (by simp)
        rw [← List.cons_append, hlonger] at hnone
        cases hnone
  · intro other hother hwhole
    refine Nat.le_of_not_lt fun hshorter => ?_
    have hnone := hleast other.before other.onward hother.symm hshorter
    rw [hwhole.digitsAt?_onward] at hnone
    cases hnone

theorem findDigits?_of_isLeftmost
    {place : Place}
    (h : place.IsLeftmost chars) :
    findDigits? chars =
      some (place.major, place.minor, (afterPoint? place.after).map Prod.fst) := by
  cases hfound : findDigits? chars with
  | none =>
      have hnone := findDigits?_eq_none_iff.1 hfound place.before place.onward h.text.symm
      rw [h.whole.digitsAt?_onward] at hnone
      cases hnone
  | some numbers =>
      obtain ⟨other, hother, rfl⟩ := exists_isLeftmost_of_findDigits? hfound
      rw [h.unique hother]

theorem exists_isLeftmost_or_forall_not (chars : List Char) :
    (∃ place : Place, place.IsLeftmost chars) ∨
      ∀ place : Place, place.text = chars → ¬ place.IsWhole := by
  cases hfound : findDigits? chars with
  | none =>
      refine Or.inr ?_
      intro place hchars hwhole
      have hnone := findDigits?_eq_none_iff.1 hfound place.before place.onward hchars.symm
      rw [hwhole.digitsAt?_onward] at hnone
      cases hnone
  | some numbers =>
      obtain ⟨place, hplace, -⟩ := exists_isLeftmost_of_findDigits? hfound
      exact Or.inl ⟨place, hplace⟩

theorem word?_eq_some_iff {word : UInt32} :
    word? digits = some word ↔ Text.digitsValue digits = word.toNat := by
  rw [word?, Option.ite_none_right_eq_some, Option.some.injEq]
  constructor
  · rintro ⟨hfits, rfl⟩
    exact (UInt32.toNat_ofNat_of_lt hfits).symm
  · intro h
    rw [h]
    exact ⟨word.toNat_lt, UInt32.ofNat_toNat⟩

theorem word?_eq_none_iff :
    word? digits = none ↔ UInt32.size ≤ Text.digitsValue digits := by
  simp [word?]

theorem word?_toDigits (word : UInt32) :
    word? (Nat.toDigits 10 word.toNat) = some word :=
  word?_eq_some_iff.2 (Text.digitsValue_toDigits word.toNat)

namespace Place

/-- The version that the numbers at a place tell. -/
def version? (place : Place) : Option ToolVersion := do
  return ⟨← word? place.major, ← word? place.minor,
    ((afterPoint? place.after).map Prod.fst).bind word?⟩

variable {place : Place} {version : ToolVersion}

theorem patch_eq_some_iff
    {patch : UInt32} :
    ((afterPoint? place.after).map Prod.fst).bind word? = some patch ↔
      ∃ digits rest, place.after = '.' :: (digits ++ rest) ∧ Text.IsNumeral digits rest ∧
        Text.digitsValue digits = patch.toNat := by
  simp only [Option.bind_eq_some_iff, Option.map_eq_some_iff, word?_eq_some_iff]
  constructor
  · rintro ⟨digits, ⟨⟨found, rest⟩, hfound, rfl⟩, hvalue⟩
    obtain ⟨hafter, hnumeral⟩ := afterPoint?_eq_some_iff.1 hfound
    exact ⟨found, rest, hafter, hnumeral, hvalue⟩
  · rintro ⟨digits, rest, hafter, hnumeral, hvalue⟩
    exact ⟨digits, ⟨(digits, rest), afterPoint?_eq_some_iff.2 ⟨hafter, hnumeral⟩, rfl⟩, hvalue⟩

theorem version?_eq_some_iff : place.version? = some version ↔ place.Tells version := by
  obtain ⟨major, minor, patch⟩ := version
  simp only [version?, Option.bind_eq_bind, Option.bind_eq_some_iff, word?_eq_some_iff,
    Option.pure_def, Option.some.injEq, ToolVersion.mk.injEq]
  constructor
  · rintro ⟨_, hmajor, _, hminor, rfl, rfl, rfl⟩
    exact ⟨hmajor, hminor, fun _ => patch_eq_some_iff⟩
  · rintro ⟨hmajor, hminor, hpatch⟩
    refine ⟨major, hmajor, minor, hminor, rfl, rfl, ?_⟩
    refine Option.ext fun word => ?_
    exact patch_eq_some_iff.trans (hpatch word).symm

theorem version?_eq_none_iff :
    place.version? = none ↔
      UInt32.size ≤ Text.digitsValue place.major ∨ UInt32.size ≤ Text.digitsValue place.minor := by
  rw [← word?_eq_none_iff, ← word?_eq_none_iff, version?]
  cases word? place.major with
  | none => simp
  | some major => cases word? place.minor <;> simp

end Place

theorem parse?_eq (text : String) :
    parse? text = (findDigits? text.toList).bind fun numbers => do
      return ⟨← word? numbers.1, ← word? numbers.2.1, numbers.2.2.bind word?⟩ :=
  rfl

/-- The version of a text is that of its leftmost place. -/
theorem parse?_of_isLeftmost
    {text : String}
    {place : Place}
    (h : place.IsLeftmost text.toList) :
    parse? text = place.version? := by
  rw [parse?_eq, findDigits?_of_isLeftmost h]
  rfl

theorem parse?_of_forall_not
    {text : String}
    (h : ∀ place : Place, place.text = text.toList → ¬ place.IsWhole) :
    parse? text = none := by
  cases hfound : findDigits? text.toList with
  | none => rw [parse?_eq, hfound, Option.bind_none]
  | some numbers =>
      obtain ⟨place, hplace, -⟩ := exists_isLeftmost_of_findDigits? hfound
      exact absurd hplace.whole (h place hplace.text)

theorem parse?_eq_some_iff
    {text : String}
    {version : ToolVersion} :
    parse? text = some version ↔
      ∃ place : Place, place.IsLeftmost text.toList ∧ place.Tells version := by
  constructor
  · intro h
    rcases exists_isLeftmost_or_forall_not text.toList with ⟨place, hplace⟩ | hnone
    · rw [parse?_of_isLeftmost hplace] at h
      exact ⟨place, hplace, Place.version?_eq_some_iff.1 h⟩
    · rw [parse?_of_forall_not hnone] at h
      cases h
  · rintro ⟨place, hplace, htells⟩
    rw [parse?_of_isLeftmost hplace]
    exact Place.version?_eq_some_iff.2 htells

theorem parse?_eq_none_iff {text : String} :
    parse? text = none ↔
      (∀ place : Place, place.text = text.toList → ¬ place.IsWhole) ∨
        ∃ place : Place, place.IsLeftmost text.toList ∧
          (UInt32.size ≤ Text.digitsValue place.major ∨
            UInt32.size ≤ Text.digitsValue place.minor) := by
  constructor
  · intro h
    rcases exists_isLeftmost_or_forall_not text.toList with ⟨place, hplace⟩ | hnone
    · rw [parse?_of_isLeftmost hplace] at h
      exact Or.inr ⟨place, hplace, Place.version?_eq_none_iff.1 h⟩
    · exact Or.inl hnone
  · rintro (hnone | ⟨place, hplace, hlarge⟩)
    · exact parse?_of_forall_not hnone
    · rw [parse?_of_isLeftmost hplace]
      exact Place.version?_eq_none_iff.2 hlarge

/-- The characters of a patch number with its point, none where it is missing. -/
def patchChars : Option UInt32 → List Char
  | none => []
  | some patch => '.' :: Nat.toDigits 10 patch.toNat

theorem toList_display (version : ToolVersion) :
    version.display.toList =
      Nat.toDigits 10 version.major.toNat ++
        '.' :: (Nat.toDigits 10 version.minor.toNat ++ patchChars version.patch) := by
  have hshown : ∀ word : UInt32, (toString word).toList = Nat.toDigits 10 word.toNat := by
    intro word
    change (toString word.toNat).toList = _
    rw [Nat.toString_eq_repr, Nat.toList_repr]
  have hpoint : (toString ".").toList = ['.'] := rfl
  obtain ⟨major, minor, _ | patch⟩ := version
  · simp [display, patchChars, hshown, hpoint]
  · simp [display, patchChars, hshown, hpoint]

/-- Nothing in the text carries on what is printed of a version: no digit follows, and no point
with a digit where a patch number is missing. -/
structure Closes (version : ToolVersion) (after : List Char) : Prop where
  digit : ∀ c, after.head? = some c → c.isDigit = false
  point : version.patch = none → ∀ c rest, after = '.' :: c :: rest → c.isDigit = false

section

variable {version : ToolVersion} {before after : List Char}

/-- The place of a printed version. -/
def placeOf (version : ToolVersion) (before after : List Char) : Place :=
  ⟨before, Nat.toDigits 10 version.major.toNat, Nat.toDigits 10 version.minor.toNat,
    patchChars version.patch ++ after⟩

theorem isWhole_placeOf
    (hbefore : ∀ c ∈ before, c.isDigit = false)
    (hafter : version.Closes after) :
    (placeOf version before after).IsWhole where
  ahead := fun c hlast => hbefore c (List.mem_of_getLast? hlast)
  major := by
    refine Text.isNumeral_toDigits _ ?_
    rintro c ⟨⟩
    rfl
  minor := by
    refine Text.isNumeral_toDigits _ ?_
    intro c hc
    rw [placeOf] at hc
    cases hpatch : version.patch with
    | none =>
        rw [hpatch] at hc
        exact hafter.digit c hc
    | some patch =>
        rw [hpatch] at hc
        cases hc
        rfl

/-- There is no place further left than a printed version without digits ahead. -/
theorem isLeftmost_placeOf
    (hbefore : ∀ c ∈ before, c.isDigit = false)
    (hafter : version.Closes after) :
    (placeOf version before after).IsLeftmost (placeOf version before after).text where
  text := rfl
  whole := isWhole_placeOf hbefore hafter
  least := by
    intro other htext hwhole
    refine Nat.le_of_not_lt fun hshorter => ?_
    rcases List.append_eq_append_iff.1 htext with ⟨between, hsplit, honward⟩ | ⟨more, hsplit, -⟩
    · -- The major number of the other place starts within what is ahead of the version.
      obtain ⟨c, digits, hmajor⟩ := List.exists_cons_of_ne_nil hwhole.major.ne_nil
      have hdigit : c.isDigit = true := hwhole.major.isDigit c (by simp [hmajor])
      cases between with
      | nil => simp [hsplit] at hshorter
      | cons d between =>
          rw [Place.onward, hmajor] at honward
          obtain ⟨rfl, -⟩ := List.cons.inj honward
          have hnone : c.isDigit = false := by
            refine hbefore c ?_
            have hmem : c ∈ (placeOf version before after).before := by simp [hsplit]
            exact hmem
          rw [hnone] at hdigit
          cases hdigit
    · rw [hsplit, List.length_append] at hshorter
      omega

theorem version?_placeOf (hafter : version.Closes after) :
    (placeOf version before after).version? = some version := by
  have hpatch : ((afterPoint? (patchChars version.patch ++ after)).map Prod.fst).bind word? =
      version.patch := by
    cases hpatch : version.patch with
    | none =>
        rw [patchChars, List.nil_append, afterPoint?_eq_none (hafter.point hpatch)]
        rfl
    | some patch =>
        have hnumeral := Text.isNumeral_toDigits patch.toNat hafter.digit
        rw [patchChars, List.cons_append, afterPoint?_eq_some_iff.2 ⟨rfl, hnumeral⟩]
        exact word?_toDigits patch
  simp only [Place.version?, placeOf, hpatch, word?_toDigits]
  rfl

end

/-- A printed version is found again within words that have no digit ahead of it and do not carry
it on. -/
theorem parse?_display
    {version : ToolVersion}
    {before after : String}
    (hbefore : ∀ c ∈ before.toList, c.isDigit = false)
    (hafter : version.Closes after.toList) :
    parse? (before ++ version.display ++ after) = some version := by
  have htext : (placeOf version before.toList after.toList).text =
      (before ++ version.display ++ after).toList := by
    rw [String.toList_append, String.toList_append, toList_display]
    simp [placeOf, Place.text, Place.onward]
  have hleftmost := isLeftmost_placeOf hbefore hafter
  rw [htext] at hleftmost
  rw [parse?_of_isLeftmost hleftmost, version?_placeOf hafter]

end ToolVersion

theorem CheckMode.ofVersion_eq_check_iff {version : ToolVersion} :
    ofVersion version = .check ↔ 1 ≤ version.major ∨ firstMinor ≤ version.minor := by
  rw [ofVersion]
  split
  · rename_i hchecks
    exact iff_of_true rfl (by simpa using hchecks)
  · rename_i hchecks
    exact iff_of_false (by simp) (by simpa using hchecks)

namespace ToolVersion

/-- A version that is not after another has no greater major number, and where these are the same
no greater minor number. -/
theorem le_numbers
    {a b : ToolVersion}
    (h : a.le b = true) :
    a.major ≤ b.major ∧ (a.major = b.major → a.minor ≤ b.minor) := by
  have hmajor : (Ord.compare a.major b.major).isLE = true := Ordering.isLE_left_of_isLE_then h
  refine ⟨Std.isLE_compare.1 hmajor, fun hsame => ?_⟩
  rw [le, compare, Std.compare_eq_iff_eq.2 hsame, Ordering.eq_then] at h
  exact Std.isLE_compare.1 (Ordering.isLE_left_of_isLE_then h)

/-- What is checked by the tool's own command stays so with later versions. -/
theorem ofVersion_eq_check_of_le
    {a b : ToolVersion}
    (h : a.le b = true)
    (hcheck : CheckMode.ofVersion a = .check) :
    CheckMode.ofVersion b = .check := by
  rw [CheckMode.ofVersion_eq_check_iff] at hcheck ⊢
  obtain ⟨hmajor, hminor⟩ := le_numbers h
  rw [UInt32.le_iff_toNat_le] at hmajor
  by_cases hzero : a.major = b.major
  · rcases hcheck with hfirst | hsecond
    · exact Or.inl (hzero ▸ hfirst)
    · exact Or.inr (UInt32.le_trans hsecond (hminor hzero))
  · refine Or.inl ?_
    rw [← UInt32.toNat_inj] at hzero
    rw [UInt32.le_iff_toNat_le, UInt32.toNat_one]
    omega

/--
The version that a text tells is that of its leftmost place, where a whole numeral, a point and a
digit stand together.  There is at most one such place; the text tells no version exactly if it has
none, or if the major or minor number there does not fit a word.  A printed version is told by every
text that has no digit ahead of it and does not carry it on, and what a version is checked by the
tool's own command, later ones are too.
-/
theorem version_told_by_leftmost_place (text : String) :
    (∀ place other : Place, place.IsLeftmost text.toList → other.IsLeftmost text.toList →
        place = other) ∧
      (∀ version, parse? text = some version ↔
        ∃ place : Place, place.IsLeftmost text.toList ∧ place.Tells version) ∧
      (parse? text = none ↔
        (∀ place : Place, place.text = text.toList → ¬ place.IsWhole) ∨
          ∃ place : Place, place.IsLeftmost text.toList ∧
            (UInt32.size ≤ Text.digitsValue place.major ∨
              UInt32.size ≤ Text.digitsValue place.minor)) ∧
      (∀ version before after,
        text = before ++ version.display ++ after → (∀ c ∈ before.toList, c.isDigit = false) →
          version.Closes after.toList → parse? text = some version) ∧
      ∀ earlier later : ToolVersion, earlier.le later = true →
        CheckMode.ofVersion earlier = .check → CheckMode.ofVersion later = .check := by
  refine ⟨?_, fun _ => parse?_eq_some_iff, parse?_eq_none_iff, ?_, ?_⟩
  · intro place other hplace hother
    exact hplace.unique hother
  · rintro version before after rfl hbefore hafter
    exact parse?_display hbefore hafter
  · intro earlier later hle hcheck
    exact ofVersion_eq_check_of_le hle hcheck

/-- A point without a digit on both sides is no place, and a patch number may not fit a word. -/
example : parse? "1. 1..2.3.4294967296" = some ⟨2, 3, none⟩ := by decide

end ToolVersion
end TargetLint
