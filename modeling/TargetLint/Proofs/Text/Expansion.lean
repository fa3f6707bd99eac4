import TargetLint.Proofs.Text.Offsets
import TargetLint.Text.Template

/-!
# Expansion in one pass

A template can be read in exactly one way: as references, each after a literal that opens none,
and a tail in which no reference is closed.  The expansion puts the values in the places of the
references and goes over nothing twice, so what a value holds is never taken for a reference.
The same is found when the text is cut at byte offsets round by round: the rounds come to an end,
and no cut lies within a character.
-/

namespace TargetLint
namespace Text

/-- The characters that open a reference. -/
def opening : List Char :=
  ['$', '\x7b']

/-- The character that closes a reference. -/
def closing : Char :=
  '\x7d'

/-- A reference with the literal in front of it. -/
structure Reference where
  literal : List Char
  name : List Char
deriving DecidableEq, Repr

/-- The characters of a reference with its literal. -/
def Reference.chars (reference : Reference) : List Char :=
  reference.literal ++ opening ++ reference.name ++ [closing]

/-- The value of a variable; nothing where it has none, or where there is no name. -/
def valueOf (environment : String → Option String) (name : List Char) : List Char :=
  if name = [] then [] else ((environment (String.ofList name)).getD "").toList

/-- A reference of a text is closed. -/
def HasClosedReference (chars : List Char) : Prop :=
  ∃ before after, chars = before ++ opening ++ after ∧ closing ∈ after

/-- References in their order, and what follows the last of them. -/
structure Reading where
  references : List Reference
  tail : List Char
deriving DecidableEq, Repr

namespace Reading

/-- The text that is read. -/
def chars (reading : Reading) : List Char :=
  reading.references.flatMap Reference.chars ++ reading.tail

/-- The text with the values in the places of the references. -/
def expansion (environment : String → Option String) (reading : Reading) : List Char :=
  reading.references.flatMap
    (fun reference => reference.literal ++ valueOf environment reference.name) ++ reading.tail

/-- Literals open no reference, names end at the first closing, and the tail closes nothing. -/
structure IsOnePass (reading : Reading) : Prop where
  literal : ∀ reference ∈ reading.references, ¬ opening <:+: reference.literal
  name : ∀ reference ∈ reading.references, closing ∉ reference.name
  tail : ¬ HasClosedReference reading.tail

variable {reference : Reference} {references : List Reference} {tail : List Char}

theorem chars_cons :
    chars ⟨reference :: references, tail⟩ =
      reference.literal ++ opening ++ (reference.name ++ closing :: chars ⟨references, tail⟩) := by
  simp [chars, Reference.chars]

theorem IsOnePass.of_cons
    (h : IsOnePass ⟨reference :: references, tail⟩) :
    IsOnePass ⟨references, tail⟩ :=
  ⟨fun other hother => h.literal other (List.mem_cons_of_mem _ hother),
    fun other hother => h.name other (List.mem_cons_of_mem _ hother), h.tail⟩

theorem IsOnePass.cons
    (h : IsOnePass ⟨references, tail⟩)
    (hliteral : ¬ opening <:+: reference.literal)
    (hname : closing ∉ reference.name) :
    IsOnePass ⟨reference :: references, tail⟩ :=
  ⟨List.forall_mem_cons.2 ⟨hliteral, h.literal⟩, List.forall_mem_cons.2 ⟨hname, h.name⟩, h.tail⟩

end Reading

/-- No reference opens within a literal, also not with the help of what follows it. -/
theorem not_prefix_of_literal
    {c : Char}
    {literal : List Char}
    (h : ¬ opening <:+: c :: literal)
    (rest : List Char) :
    ¬ opening <+: c :: (literal ++ opening ++ rest) := by
  intro hopens
  cases literal with
  | nil =>
      have hclash : '\x7b' = '$' := (List.cons_prefix_cons.1 (List.cons_prefix_cons.1 hopens).2).1
      exact absurd hclash (by decide)
  | cons d literal =>
      obtain ⟨hc, hrest⟩ := List.cons_prefix_cons.1 hopens
      obtain ⟨hd, -⟩ := List.cons_prefix_cons.1 hrest
      rw [← hc, ← hd] at h
      exact h (List.prefix_append opening literal).isInfix

/-- A text in which a reference opens starts with a literal before the first one that does. -/
theorem exists_literal
    {chars : List Char}
    (h : opening <:+: chars) :
    ∃ literal rest, chars = literal ++ opening ++ rest ∧ ¬ opening <:+: literal := by
  induction chars with
  | nil => cases List.infix_nil.1 h
  | cons c chars ih =>
      by_cases hhere : opening <+: c :: chars
      · obtain ⟨rest, hrest⟩ := hhere
        exact ⟨[], rest, hrest.symm, fun hnil => by cases List.infix_nil.1 hnil⟩
      · rcases List.infix_cons_iff.1 h with hopening | hlater
        · exact absurd hopening hhere
        · obtain ⟨literal, rest, rfl, hliteral⟩ := ih hlater
          refine ⟨c :: literal, rest, rfl, ?_⟩
          intro hopens
          rcases List.infix_cons_iff.1 hopens with hopening | hwithin
          · refine hhere (hopening.trans ?_)
            rw [List.append_assoc]
            exact List.prefix_append (c :: literal) (opening ++ rest)
          · exact hliteral hwithin

/-- If any reference of a text is closed, the first one that opens is. -/
theorem closing_mem_of_hasClosedReference
    {literal rest : List Char}
    (hliteral : ¬ opening <:+: literal)
    (h : HasClosedReference (literal ++ opening ++ rest)) :
    closing ∈ rest := by
  obtain ⟨before, after, hsplit, hclosing⟩ := h
  -- The other opening starts at the first one or behind it, so its rest is part of the first's.
  induction literal generalizing before with
  | nil =>
      cases before with
      | nil =>
          have hrest : rest = after := by simpa [opening] using hsplit
          exact hrest ▸ hclosing
      | cons c before =>
          have htail : '\x7b' :: rest = before ++ opening ++ after := by
            simpa [opening] using (List.cons.inj hsplit).2
          cases before with
          | nil =>
              have hclash : '\x7b' = '$' := (List.cons.inj htail).1
              exact absurd hclash (by decide)
          | cons d before =>
              rw [(List.cons.inj htail).2]
              exact List.mem_append_right _ hclosing
  | cons c literal ih =>
      cases before with
      | nil => exact absurd ⟨after, hsplit.symm⟩ (not_prefix_of_literal hliteral rest)
      | cons d before =>
          refine ih (fun hopens => hliteral ?_) before (List.cons.inj hsplit).2
          exact List.infix_cons_iff.2 (Or.inr hopens)

namespace Reading

/-- Every text can be read. -/
theorem exists_isOnePass (chars : List Char) :
    ∃ reading : Reading, reading.chars = chars ∧ reading.IsOnePass := by
  induction hlength : chars.length using Nat.strong_induction_on generalizing chars with
  | _ length ih =>
      by_cases hclosed : HasClosedReference chars
      · obtain ⟨before, after, hsplit, hclosing⟩ := hclosed
        have hopens : opening <:+: chars := ⟨before, after, hsplit.symm⟩
        obtain ⟨literal, rest, rfl, hliteral⟩ := exists_literal hopens
        have hrest : closing ∈ rest :=
          closing_mem_of_hasClosedReference hliteral ⟨before, after, hsplit, hclosing⟩
        obtain ⟨name, next, rfl, hname⟩ := List.eq_append_cons_of_mem hrest
        have hshorter : next.length < length := by
          rw [← hlength]
          simp only [List.length_append, List.length_cons]
          omega
        obtain ⟨reading, rfl, hreading⟩ := ih next.length hshorter next rfl
        exact ⟨⟨⟨literal, name⟩ :: reading.references, reading.tail⟩, chars_cons,
          hreading.cons hliteral hname⟩
      · exact ⟨⟨[], chars⟩, rfl, by simp, by simp, hclosed⟩

end Reading

namespace TemplatePart

theorem outside_cons
    {c : Char}
    {rest : List Char}
    (h : ¬ opening <+: c :: rest) :
    outside (c :: rest) = plain c :: outside rest := by
  rw [outside]
  rintro others rfl rfl
  exact h ⟨others, rfl⟩

theorem outside_literal
    {literal : List Char}
    (h : ¬ opening <:+: literal)
    (rest : List Char) :
    outside (literal ++ opening ++ rest) = literal.map plain ++ inside [] rest := by
  induction literal with
  | nil => simp [opening, outside]
  | cons c literal ih =>
      have hrest : ¬ opening <:+: literal := fun hopens =>
        h (List.infix_cons_iff.2 (Or.inr hopens))
      rw [List.cons_append, List.cons_append, outside_cons (not_prefix_of_literal h rest),
        ih hrest]
      rfl

theorem inside_cons
    {c : Char}
    (h : c ≠ closing)
    (name rest : List Char) :
    inside name (c :: rest) = inside (c :: name) rest := by
  rw [inside]
  exact fun hclosing => h hclosing

theorem inside_name
    {name : List Char}
    (h : closing ∉ name)
    (before rest : List Char) :
    inside before (name ++ closing :: rest) =
      .variable (before.reverse ++ name) :: outside rest := by
  induction name generalizing before with
  | nil => simp [closing, inside]
  | cons c name ih =>
      rw [List.mem_cons, not_or] at h
      rw [List.cons_append, inside_cons (Ne.symm h.1), ih h.2]
      simp

/-- A reference that is not closed is text. -/
theorem inside_of_not_mem
    {rest : List Char}
    (h : closing ∉ rest)
    (before : List Char) :
    inside before rest = (opening ++ before.reverse ++ rest).map plain := by
  induction rest generalizing before with
  | nil => simp [inside, opening]
  | cons c rest ih =>
      rw [List.mem_cons, not_or] at h
      rw [inside_cons (Ne.symm h.1), ih h.2]
      simp

theorem outside_tail
    {tail : List Char}
    (h : ¬ HasClosedReference tail) :
    outside tail = tail.map plain := by
  induction tail with
  | nil => simp [outside]
  | cons c tail ih =>
      by_cases hopens : opening <+: c :: tail
      · obtain ⟨rest, hrest⟩ := hopens
        have hclosing : closing ∉ rest := fun hmem => h ⟨[], rest, hrest.symm, hmem⟩
        have hempty : ¬ opening <:+: [] := by decide
        have hparts := outside_literal hempty rest
        rw [← hrest]
        exact hparts.trans (inside_of_not_mem hclosing [])
      · rw [outside_cons hopens, ih]
        · rfl
        · rintro ⟨before, after, rfl, hclosing⟩
          exact h ⟨c :: before, after, rfl, hclosing⟩

/-- The parts of a text are those of its reading. -/
theorem outside_chars
    {reading : Reading}
    (h : reading.IsOnePass) :
    outside reading.chars =
      reading.references.flatMap
        (fun reference => reference.literal.map plain ++ [.variable reference.name]) ++
      reading.tail.map plain := by
  obtain ⟨references, tail⟩ := reading
  induction references with
  | nil => exact outside_tail h.tail
  | cons reference references ih =>
      rw [Reading.chars_cons, outside_literal (h.literal reference (by simp)),
        inside_name (h.name reference (by simp)), ih h.of_cons]
      simp

theorem flatMap_expand_plain
    (environment : String → Option String)
    (chars : List Char) :
    (chars.map plain).flatMap (expand environment) = chars := by
  induction chars with
  | nil => rfl
  | cons c chars ih => rw [List.map_cons, List.flatMap_cons, ih, expand, List.singleton_append]

theorem expand_variable
    (environment : String → Option String)
    (name : List Char) :
    expand environment (.variable name) = valueOf environment name := by
  cases name <;> rfl

end TemplatePart

theorem toList_expand_of_chars
    {text : String}
    {reading : Reading}
    (hchars : reading.chars = text.toList)
    (h : reading.IsOnePass)
    (environment : String → Option String) :
    (expand environment text).toList = reading.expansion environment := by
  rw [expand, String.toList_ofList, templateParts, ← hchars, TemplatePart.outside_chars h,
    List.flatMap_append, TemplatePart.flatMap_expand_plain, List.flatMap_assoc, Reading.expansion]
  refine congrArg (· ++ reading.tail) (List.flatMap_congr fun reference _ => ?_)
  rw [List.flatMap_append, TemplatePart.flatMap_expand_plain, List.flatMap_singleton,
    TemplatePart.expand_variable]

/--
The expansion by byte offsets, one reference a round; absent where the rounds do not suffice or a
text is to be cut within a character.
-/
def expandByOffsets? (environment : String → Option String) :
    Nat → List Char → Option (List Char)
  | 0, _ => none
  | rounds + 1, chars =>
      match offsetOf? opening chars with
      | none => some chars
      | some start => do
          let (_, rest) ← cutAt? (start + 2) chars
          match offsetOf? [closing] rest with
          | none => some chars
          | some stop => do
              let (literal, _) ← cutAt? start chars
              let (name, _) ← cutAt? stop rest
              let (_, next) ← cutAt? (stop + 1) rest
              let expanded ← expandByOffsets? environment rounds next
              some (literal ++ valueOf environment name ++ expanded)

section

variable {literal name tail : List Char}

theorem offsetOf?_literal
    (h : ¬ opening <:+: literal)
    (rest : List Char) :
    offsetOf? opening (literal ++ opening ++ rest) = some (byteCount literal) := by
  induction literal with
  | nil =>
      have hhere : opening <+: '$' :: '\x7b' :: rest := ⟨rest, rfl⟩
      exact if_pos hhere
  | cons c literal ih =>
      have hrest : ¬ opening <:+: literal := fun hopens =>
        h (List.infix_cons_iff.2 (Or.inr hopens))
      rw [List.cons_append, List.cons_append, offsetOf?, if_neg (not_prefix_of_literal h rest),
        ih hrest]
      rfl

theorem offsetOf?_name
    (h : closing ∉ name)
    (rest : List Char) :
    offsetOf? [closing] (name ++ closing :: rest) = some (byteCount name) := by
  induction name with
  | nil =>
      have hhere : [closing] <+: closing :: rest := ⟨rest, rfl⟩
      exact if_pos hhere
  | cons c name ih =>
      rw [List.mem_cons, not_or] at h
      have hhere : ¬ [closing] <+: c :: (name ++ closing :: rest) := fun hcloses =>
        h.1 (List.cons_prefix_cons.1 hcloses).1
      rw [List.cons_append, offsetOf?, if_neg hhere, ih h.2]
      rfl

/-- The opening of a reference takes two bytes, so the text can be cut behind it. -/
theorem cutAt?_opening (literal rest : List Char) :
    cutAt? (byteCount literal + 2) (literal ++ opening ++ rest) =
      some (literal ++ opening, rest) := by
  have hcount : byteCount literal + 2 = byteCount (literal ++ opening) := by
    rw [byteCount_append]
    rfl
  rw [hcount, cutAt?_byteCount]

/-- The closing of a reference takes one byte, so the text can be cut behind it. -/
theorem cutAt?_closing (name next : List Char) :
    cutAt? (byteCount name + 1) (name ++ closing :: next) = some (name ++ [closing], next) := by
  have hcount : byteCount name + 1 = byteCount (name ++ [closing]) := by
    rw [byteCount_append]
    rfl
  have hsplit : name ++ closing :: next = name ++ [closing] ++ next := by simp
  rw [hcount, hsplit, cutAt?_byteCount]

/-- A round replaces the first reference. -/
theorem expandByOffsets?_reference
    (hliteral : ¬ opening <:+: literal)
    (hname : closing ∉ name)
    (environment : String → Option String)
    (rounds : Nat)
    (next : List Char) :
    expandByOffsets? environment (rounds + 1)
        (literal ++ opening ++ (name ++ closing :: next)) =
      (expandByOffsets? environment rounds next).map fun expanded =>
        literal ++ valueOf environment name ++ expanded := by
  have hbefore : cutAt? (byteCount literal) (literal ++ opening ++ (name ++ closing :: next)) =
      some (literal, opening ++ (name ++ closing :: next)) := by
    rw [List.append_assoc, cutAt?_byteCount]
  rw [expandByOffsets?]
  simp only [offsetOf?_literal hliteral, cutAt?_opening, offsetOf?_name hname, hbefore,
    cutAt?_byteCount, cutAt?_closing, Option.bind_eq_bind, Option.bind_some]
  cases expandByOffsets? environment rounds next <;> rfl

/-- A round finds no reference to replace in a tail, and is the last. -/
theorem expandByOffsets?_tail
    (h : ¬ HasClosedReference tail)
    (environment : String → Option String)
    (rounds : Nat) :
    expandByOffsets? environment (rounds + 1) tail = some tail := by
  rw [expandByOffsets?]
  cases hstart : offsetOf? opening tail with
  | none => rfl
  | some start =>
      obtain ⟨before, rest, rfl, rfl⟩ := exists_of_offsetOf? hstart
      have hclosing : closing ∉ rest := fun hmem => h ⟨before, rest, rfl, hmem⟩
      have hstop : offsetOf? [closing] rest = none :=
        offsetOf?_eq_none_iff.2 fun hfound =>
          hclosing (hfound.subset (List.mem_singleton_self closing))
      simp only [cutAt?_opening, hstop, Option.bind_eq_bind, Option.bind_some]

end

/-- As many rounds as there are references and one more replace them all. -/
theorem expandByOffsets?_chars
    {reading : Reading}
    (h : reading.IsOnePass)
    {rounds : Nat}
    (hrounds : reading.references.length < rounds)
    (environment : String → Option String) :
    expandByOffsets? environment rounds reading.chars = some (reading.expansion environment) := by
  obtain ⟨references, tail⟩ := reading
  induction references generalizing rounds with
  | nil =>
      obtain ⟨rounds, rfl⟩ := Nat.exists_eq_add_of_lt hrounds
      exact expandByOffsets?_tail h.tail environment _
  | cons reference references ih =>
      obtain ⟨before, rfl⟩ : ∃ before, rounds = before + 1 :=
        ⟨rounds - 1, by rw [List.length_cons] at hrounds; omega⟩
      have hbefore : references.length < before := by
        rw [List.length_cons] at hrounds
        omega
      rw [Reading.chars_cons, expandByOffsets?_reference (h.literal reference (by simp))
        (h.name reference (by simp)), ih h.of_cons hbefore]
      simp [Reading.expansion]

section

variable {literal other name rest more : List Char}

/-- The literal before the first opening is told by the text. -/
theorem literal_inj
    (hliteral : ¬ opening <:+: literal)
    (hother : ¬ opening <:+: other)
    (h : literal ++ opening ++ rest = other ++ opening ++ more) :
    literal = other ∧ rest = more := by
  have hoffset : byteCount literal = byteCount other := by
    have hfound := offsetOf?_literal hliteral rest
    rw [h, offsetOf?_literal hother more] at hfound
    exact (Option.some.inj hfound).symm
  have hcut := cutAt?_opening literal rest
  rw [h, hoffset, cutAt?_opening, Option.some.injEq, Prod.mk.injEq] at hcut
  exact ⟨(List.append_cancel_right hcut.1).symm, hcut.2.symm⟩

/-- The name before the first closing is told by the text. -/
theorem name_inj
    (hname : closing ∉ name)
    (hother : closing ∉ other)
    (h : name ++ closing :: rest = other ++ closing :: more) :
    name = other ∧ rest = more := by
  have hoffset : byteCount name = byteCount other := by
    have hfound := offsetOf?_name hname rest
    rw [h, offsetOf?_name hother more] at hfound
    exact (Option.some.inj hfound).symm
  have hcut := cutAt?_closing name rest
  rw [h, hoffset, cutAt?_closing, Option.some.injEq, Prod.mk.injEq] at hcut
  exact ⟨(List.append_cancel_right hcut.1).symm, hcut.2.symm⟩

end

namespace Reading

theorem hasClosedReference_chars_cons
    (reference : Reference)
    (references : List Reference)
    (tail : List Char) :
    HasClosedReference (chars ⟨reference :: references, tail⟩) :=
  ⟨reference.literal, _, chars_cons, by simp⟩

/-- A text is not read in two ways. -/
theorem eq_of_chars_eq
    {first second : Reading}
    (hfirst : first.IsOnePass)
    (hsecond : second.IsOnePass)
    (h : first.chars = second.chars) :
    first = second := by
  obtain ⟨references, tail⟩ := first
  obtain ⟨others, rest⟩ := second
  induction references generalizing others with
  | nil =>
      cases others with
      | nil => exact congrArg (Reading.mk []) h
      | cons other others =>
          have htail : tail = chars ⟨other :: others, rest⟩ := h
          exact absurd (htail ▸ hasClosedReference_chars_cons other others rest) hfirst.tail
  | cons reference references ih =>
      cases others with
      | nil =>
          have hrest : chars ⟨reference :: references, tail⟩ = rest := h
          exact absurd (hrest ▸ hasClosedReference_chars_cons reference references tail)
            hsecond.tail
      | cons other others =>
          rw [chars_cons, chars_cons] at h
          obtain ⟨hliteral, hafter⟩ := literal_inj (hfirst.literal reference (by simp))
            (hsecond.literal other (by simp)) h
          obtain ⟨hname, hnext⟩ := name_inj (hfirst.name reference (by simp))
            (hsecond.name other (by simp)) hafter
          have hreference : reference = other := by
            cases reference
            cases other
            exact congrArg₂ Reference.mk hliteral hname
          have hothers := ih hfirst.of_cons others hsecond.of_cons hnext
          rw [Reading.mk.injEq] at hothers
          rw [hreference, hothers.1, hothers.2]

/-- The expansion depends on the values of the names that are referred to, and on no others. -/
theorem expansion_congr
    {reading : Reading}
    {first second : String → Option String}
    (h : ∀ reference ∈ reading.references, reference.name ≠ [] →
      first (String.ofList reference.name) = second (String.ofList reference.name)) :
    reading.expansion first = reading.expansion second := by
  rw [expansion, expansion]
  refine congrArg (· ++ reading.tail) (List.flatMap_congr fun reference hreference => ?_)
  by_cases hname : reference.name = []
  · rw [valueOf, valueOf, if_pos hname, if_pos hname]
  · rw [valueOf, valueOf, h reference hreference hname]

end Reading

/--
A text is read in exactly one way.  Its expansion is this reading with values in the places of the
references, whatever the values hold.  The expansion by byte offsets gives the same: it comes to
an end in one round more than there are references and never cuts within a character.  A text
without a closed reference stands for itself, and environments that agree on the names that are
referred to expand the text alike.
-/
theorem expand_in_one_pass (text : String) :
    ∃ reading : Reading,
      (∀ other : Reading, other.chars = text.toList ∧ other.IsOnePass ↔ other = reading) ∧
      (∀ environment, (expand environment text).toList = reading.expansion environment) ∧
      (∀ environment rounds, reading.references.length < rounds →
        expandByOffsets? environment rounds text.toList =
          some (expand environment text).toList) ∧
      (¬ HasClosedReference text.toList → ∀ environment, expand environment text = text) ∧
      ∀ first second : String → Option String,
        (∀ reference ∈ reading.references, reference.name ≠ [] →
          first (String.ofList reference.name) = second (String.ofList reference.name)) →
        expand first text = expand second text := by
  obtain ⟨reading, hchars, honePass⟩ := Reading.exists_isOnePass text.toList
  have hexpand := toList_expand_of_chars hchars honePass
  refine ⟨reading, ?_, hexpand, ?_, ?_, ?_⟩
  · intro other
    constructor
    · rintro ⟨hother, hpass⟩
      exact Reading.eq_of_chars_eq hpass honePass (hother.trans hchars.symm)
    · rintro rfl
      exact ⟨hchars, honePass⟩
  · intro environment rounds hrounds
    rw [hexpand, ← hchars]
    exact expandByOffsets?_chars honePass hrounds environment
  · intro hopen environment
    have hplain : Reading.IsOnePass ⟨[], text.toList⟩ := ⟨by simp, by simp, hopen⟩
    rw [← String.toList_inj]
    exact toList_expand_of_chars rfl hplain environment
  · intro first second hagree
    rw [← String.toList_inj, hexpand, hexpand]
    exact Reading.expansion_congr hagree

/-- A text without closing has no closed reference. -/
theorem not_hasClosedReference
    {chars : List Char}
    (h : closing ∉ chars) :
    ¬ HasClosedReference chars := by
  rintro ⟨before, after, rfl, hclosing⟩
  exact h (List.mem_append_right _ hclosing)

/-- A template with a dollar sign and an opening before a name, a reference without a name, and an
open end. -/
def crowdedTemplate : String :=
  "$$\x7ba$\x7bb\x7dé$\x7b\x7d-$\x7bc"

/-- The way in which the template is read. -/
def crowdedReading : Reading :=
  ⟨[⟨['$'], "a$\x7bb".toList⟩, ⟨['é'], []⟩], "-$\x7bc".toList⟩

/-- A value that looks like a reference is not expanded, and the last opening stays as it is. -/
theorem expand_in_one_pass_crowdedTemplate :
    let environment (name : String) : Option String :=
      if name = "a$\x7bb" then some "$\x7bb\x7d" else some "unused"
    expand environment crowdedTemplate = "$$\x7bb\x7dé-$\x7bc" ∧
      expandByOffsets? environment 3 crowdedTemplate.toList =
        some (expand environment crowdedTemplate).toList ∧
      expand environment crowdedTemplate = expand (fun _ => some "$\x7bb\x7d") crowdedTemplate ∧
      expand environment "-$\x7bc" = "-$\x7bc" := by
  intro environment
  have hpass : crowdedReading.IsOnePass :=
    ⟨by decide, by decide, not_hasClosedReference (by decide)⟩
  obtain ⟨reading, hunique, hexpand, hoffsets, -, hagree⟩ := expand_in_one_pass crowdedTemplate
  obtain rfl := (hunique crowdedReading).1 ⟨by decide, hpass⟩
  obtain ⟨_, -, -, -, hopen, -⟩ := expand_in_one_pass "-$\x7bc"
  refine ⟨?_, hoffsets environment 3 (by decide), hagree _ _ (by decide), ?_⟩
  · rw [← String.toList_inj, hexpand]
    decide
  · exact hopen (not_hasClosedReference (by decide)) environment

end Text
end TargetLint
