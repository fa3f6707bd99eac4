import TargetLint.Command

/-!
# Reading a shown command

A terminal parts a line into words at separators outside of single quotes and removes the quotes.
A command that is shown is read back word by word, if its program is a plain word and no argument
holds a quote.  In every other case something else is read: quotes within an argument are removed,
and the program is shown without quotes, whatever it holds.
-/

namespace TargetLint

/-- What parts words outside of quotes.  A space does, and nothing but blank characters. -/
structure Separators where
  parts : Char → Bool
  space : parts ' ' = true
  isBlank : ∀ c, parts c = true → Text.isBlank c = true

/-- Words are parted at every blank character. -/
def Separators.blanks : Separators where
  parts := Text.isBlank
  space := by decide
  isBlank := fun _ h => h

/-- Words are parted at spaces alone. -/
def Separators.spaces : Separators where
  parts := fun c => c = ' '
  space := by decide
  isBlank := by
    intro c hspace
    rw [of_decide_eq_true hspace]
    decide

/-- The quote that a terminal takes for the start or the end of a stretch without separators. -/
def quote : Char :=
  '\x27'

/--
The words of a line.  A quote may be open, and a word may have begun: it has if there was a quote or
any character that is no separator.
-/
def wordsFrom (separators : Separators) : Bool → Option (List Char) → List Char → List (List Char)
  | _, word, [] => word.toList
  | isOpen, word, c :: rest =>
      if c = quote then
        wordsFrom separators (!isOpen) (some (word.getD [])) rest
      else if isOpen = false ∧ separators.parts c = true then
        word.toList ++ wordsFrom separators false none rest
      else
        wordsFrom separators isOpen (some (word.getD [] ++ [c])) rest

/-- The words of a text. -/
def words (separators : Separators) (text : String) : List String :=
  (wordsFrom separators false none text.toList).map String.ofList

variable {separators : Separators} {word : Option (List Char)} {chars rest : List Char}

/-- Up to its end, a quoted stretch belongs to the word. -/
theorem wordsFrom_quoted
    (h : quote ∉ chars)
    (begun rest : List Char) :
    wordsFrom separators true (some begun) (chars ++ quote :: rest) =
      wordsFrom separators false (some (begun ++ chars)) rest := by
  induction chars generalizing begun with
  | nil => simp [wordsFrom]
  | cons c chars ih =>
      rw [List.mem_cons, not_or] at h
      rw [List.cons_append, wordsFrom, if_neg (Ne.symm h.1), if_neg (by simp), Option.getD_some,
        ih h.2]
      simp

/-- A character that is neither quote nor separator belongs to the word. -/
theorem wordsFrom_cons_of_plain
    {c : Char}
    (hquote : c ≠ quote)
    (hparts : separators.parts c = false) :
    wordsFrom separators false word (c :: rest) =
      wordsFrom separators false (some (word.getD [] ++ [c])) rest := by
  rw [wordsFrom, if_neg hquote, if_neg (by simp [hparts])]

/-- A separator ends the word that has begun. -/
theorem wordsFrom_cons_of_parts
    {c : Char}
    (hquote : c ≠ quote)
    (hparts : separators.parts c = true) :
    wordsFrom separators false word (c :: rest) =
      word.toList ++ wordsFrom separators false none rest := by
  rw [wordsFrom, if_neg hquote, if_pos ⟨rfl, hparts⟩]

theorem wordsFrom_space :
    wordsFrom separators false word (' ' :: rest) =
      word.toList ++ wordsFrom separators false none rest :=
  wordsFrom_cons_of_parts (by decide) separators.space

/-- Without quotes and separators, a text is a single word as a whole. -/
theorem wordsFrom_plain
    (hne : word ≠ none ∨ chars ≠ [])
    (hplain : ∀ c ∈ chars, c ≠ quote ∧ separators.parts c = false)
    (rest : List Char) :
    wordsFrom separators false word (chars ++ rest) =
      wordsFrom separators false (some (word.getD [] ++ chars)) rest := by
  induction chars generalizing word with
  | nil =>
      cases word with
      | none => simp at hne
      | some begun => simp
  | cons c chars ih =>
      obtain ⟨hc, hchars⟩ := List.forall_mem_cons.1 hplain
      rw [List.cons_append, wordsFrom_cons_of_plain hc.1 hc.2,
        ih (Or.inl (Option.some_ne_none _)) hchars]
      simp

/-- No word holds a quote. -/
theorem quote_not_mem_of_mem_wordsFrom
    {isOpen : Bool}
    (hbegun : ∀ begun ∈ word, quote ∉ begun)
    {found : List Char}
    (h : found ∈ wordsFrom separators isOpen word chars) :
    quote ∉ found := by
  induction chars generalizing isOpen word with
  | nil => exact hbegun found (Option.mem_toList.1 h)
  | cons c chars ih =>
      have hold : quote ∉ word.getD [] := by
        cases word with
        | none => simp
        | some begun => exact hbegun begun rfl
      rw [wordsFrom] at h
      split at h
      · exact ih (by rintro _ ⟨⟩; exact hold) h
      · rename_i hquote
        split at h
        · rcases List.mem_append.1 h with hnow | hlater
          · exact hbegun found (Option.mem_toList.1 hnow)
          · exact ih (by simp) hlater
        · refine ih ?_ h
          rintro _ ⟨⟩
          simp [hold, Ne.symm hquote]

/-- Where no quote is open or opens, a word is not empty and holds no separator. -/
theorem plain_of_mem_wordsFrom
    (hquote : quote ∉ chars)
    (hbegun : ∀ begun ∈ word, begun ≠ [] ∧ ∀ c ∈ begun, separators.parts c = false)
    {found : List Char}
    (h : found ∈ wordsFrom separators false word chars) :
    found ≠ [] ∧ ∀ c ∈ found, separators.parts c = false := by
  induction chars generalizing word with
  | nil => exact hbegun found (Option.mem_toList.1 h)
  | cons c chars ih =>
      rw [List.mem_cons, not_or] at hquote
      cases hparts : separators.parts c with
      | true =>
          rw [wordsFrom_cons_of_parts (Ne.symm hquote.1) hparts] at h
          rcases List.mem_append.1 h with hnow | hlater
          · exact hbegun found (Option.mem_toList.1 hnow)
          · exact ih hquote.2 (by simp) hlater
      | false =>
          rw [wordsFrom_cons_of_plain (Ne.symm hquote.1) hparts] at h
          refine ih hquote.2 ?_ h
          rintro _ ⟨⟩
          cases word with
          | none => simpa using hparts
          | some begun =>
              refine ⟨by simp, ?_⟩
              intro d hd
              rcases List.mem_append.1 hd with hold | hnew
              · exact (hbegun begun rfl).2 d hold
              · rw [List.mem_singleton.1 hnew]
                exact hparts

theorem wordsFrom_eq_singleton_iff (hquote : quote ∉ chars) :
    wordsFrom separators false none chars = [chars] ↔
      chars ≠ [] ∧ ∀ c ∈ chars, separators.parts c = false := by
  constructor
  · intro h
    have hmem : chars ∈ wordsFrom separators false none chars := by
      rw [h]
      exact List.mem_singleton_self _
    exact plain_of_mem_wordsFrom hquote (by simp) hmem
  · rintro ⟨hne, hplain⟩
    have hchars : ∀ c ∈ chars, c ≠ quote ∧ separators.parts c = false :=
      fun c hc => ⟨fun hsame => hquote (hsame ▸ hc), hplain c hc⟩
    calc wordsFrom separators false none chars
      _ = wordsFrom separators false none (chars ++ []) := by rw [List.append_nil]
      _ = wordsFrom separators false (some chars) [] := wordsFrom_plain (Or.inr hne) hchars []
      _ = [chars] := rfl

namespace Command

/-- An argument with the space ahead of it, as it is shown. -/
def spaced (argument : String) : List Char :=
  ' ' :: (displayArgument argument).toList

theorem toList_display (command : Command) :
    command.display.toList = command.program.toList ++ command.arguments.flatMap spaced := by
  obtain ⟨program, arguments, directory⟩ := command
  rw [display]
  induction arguments generalizing program with
  | nil => simp
  | cons argument arguments ih =>
      rw [List.map_cons, String.intercalate_cons_cons, String.toList_append, String.toList_append,
        ih (displayArgument argument)]
      simp [spaced]

/-- An argument without quotes is read as it is. -/
theorem wordsFrom_displayArgument
    {argument : String}
    (h : quote ∉ argument.toList)
    (rest : List Char) :
    wordsFrom separators false none ((displayArgument argument).toList ++ rest) =
      wordsFrom separators false (some argument.toList) rest := by
  rw [displayArgument]
  split
  · have hquote : (toString "'").toList = [quote] := rfl
    have hshown : (s!"'{argument}'").toList ++ rest =
        quote :: (argument.toList ++ quote :: rest) := by
      simp [hquote, show toString argument = argument from rfl]
    rw [hshown, wordsFrom, if_pos rfl]
    exact wordsFrom_quoted h [] rest
  · rename_i hneeds
    simp only [needsQuotes, Bool.or_eq_true, not_or, List.any_eq_true, not_exists, not_and] at hneeds
    obtain ⟨hempty, hblank⟩ := hneeds
    have hne : argument.toList ≠ [] := by simpa using hempty
    refine wordsFrom_plain (Or.inr hne) ?_ rest
    intro c hc
    refine ⟨fun hsame => h (hsame ▸ hc), ?_⟩
    cases hparts : separators.parts c with
    | false => rfl
    | true => exact absurd (separators.isBlank c hparts) (hblank c hc)

theorem wordsFrom_spaced
    {arguments : List String}
    (h : ∀ argument ∈ arguments, quote ∉ argument.toList) :
    wordsFrom separators false word (arguments.flatMap spaced) =
      word.toList ++ arguments.map String.toList := by
  induction arguments generalizing word with
  | nil => simp [wordsFrom]
  | cons argument arguments ih =>
      obtain ⟨hargument, harguments⟩ := List.forall_mem_cons.1 h
      rw [List.flatMap_cons, spaced, List.cons_append, wordsFrom_space,
        wordsFrom_displayArgument hargument, ih harguments]
      rfl

/-- The program and the arguments do not run into each other. -/
theorem wordsFrom_append_spaced
    {arguments : List String}
    (hquote : quote ∉ chars)
    (h : ∀ argument ∈ arguments, quote ∉ argument.toList) :
    wordsFrom separators false word (chars ++ arguments.flatMap spaced) =
      wordsFrom separators false word chars ++ arguments.map String.toList := by
  induction chars generalizing word with
  | nil => exact wordsFrom_spaced h
  | cons c chars ih =>
      rw [List.mem_cons, not_or] at hquote
      rw [List.cons_append]
      cases hparts : separators.parts c with
      | true =>
          rw [wordsFrom_cons_of_parts (Ne.symm hquote.1) hparts,
            wordsFrom_cons_of_parts (Ne.symm hquote.1) hparts, ih hquote.2, List.append_assoc]
      | false =>
          rw [wordsFrom_cons_of_plain (Ne.symm hquote.1) hparts,
            wordsFrom_cons_of_plain (Ne.symm hquote.1) hparts, ih hquote.2]

/-- The program is a plain word, and no argument holds a quote. -/
structure IsPlain (separators : Separators) (command : Command) : Prop where
  program_ne : command.program ≠ ""
  program : ∀ c ∈ command.program.toList, c ≠ quote ∧ separators.parts c = false
  arguments : ∀ argument ∈ command.arguments, quote ∉ argument.toList

theorem words_eq_iff
    {command : Command} :
    words separators command.display = command.program :: command.arguments ↔
      wordsFrom separators false none command.display.toList =
        command.program.toList :: command.arguments.map String.toList := by
  have hlist : command.program :: command.arguments =
      (command.program.toList :: command.arguments.map String.toList).map String.ofList := by
    simp [Function.comp_def]
  rw [words, hlist]
  exact List.map_inj_right fun _ _ h => String.ofList_injective h

theorem words_display_iff
    {command : Command} :
    words separators command.display = command.program :: command.arguments ↔
      command.IsPlain separators := by
  rw [words_eq_iff]
  constructor
  · intro h
    have hquote : ∀ found ∈ command.program.toList :: command.arguments.map String.toList,
        quote ∉ found := by
      intro found hfound
      rw [← h] at hfound
      exact quote_not_mem_of_mem_wordsFrom (by simp) hfound
    obtain ⟨hprogram, harguments⟩ := List.forall_mem_cons.1 hquote
    rw [List.forall_mem_map] at harguments
    rw [toList_display, wordsFrom_append_spaced hprogram harguments, ← List.singleton_append,
      List.append_cancel_right_eq, wordsFrom_eq_singleton_iff hprogram] at h
    obtain ⟨hne, hplain⟩ := h
    exact ⟨by simpa using hne, fun c hc => ⟨fun hsame => hprogram (hsame ▸ hc), hplain c hc⟩,
      harguments⟩
  · rintro ⟨hne, hprogram, harguments⟩
    have hquote : quote ∉ command.program.toList := fun hmem => (hprogram quote hmem).1 rfl
    rw [toList_display, wordsFrom_append_spaced hquote harguments,
      (wordsFrom_eq_singleton_iff hquote).2 ⟨by simpa using hne, fun c hc => (hprogram c hc).2⟩]
    rfl

/--
A command is read back from the text that is shown, program and arguments alike, just in case it is
plain.  Two plain commands that differ in the program or in an argument are shown differently.
-/
theorem shown_read_back_iff_isPlain (separators : Separators) (command : Command) :
    (words separators command.display = command.program :: command.arguments ↔
        command.IsPlain separators) ∧
      ∀ other : Command, command.IsPlain separators → other.IsPlain separators →
        (command.display = other.display ↔
          command.program = other.program ∧ command.arguments = other.arguments) := by
  refine ⟨words_display_iff, fun other hplain hother => ⟨fun hsame => ?_, ?_⟩⟩
  · have hread : command.program :: command.arguments = other.program :: other.arguments := by
      rw [← words_display_iff.2 hplain, ← words_display_iff.2 hother, hsame]
    exact List.cons.inj hread
  · rintro ⟨hprogram, harguments⟩
    rw [display, display, hprogram, harguments]

/-- A program with a tab in its name. -/
def tabbedProgram : Command :=
  ⟨"my\tcargo", ["check", "two words"], ⟨"/w"⟩⟩

/-- The command is read back where words are parted at spaces alone, and not at every blank. -/
theorem shown_read_back_of_tabbedProgram :
    words .spaces tabbedProgram.display = tabbedProgram.program :: tabbedProgram.arguments ∧
      words .blanks tabbedProgram.display ≠ tabbedProgram.program :: tabbedProgram.arguments := by
  constructor
  · refine (shown_read_back_iff_isPlain .spaces tabbedProgram).1.2 ⟨by decide, ?_, by decide⟩
    simp [tabbedProgram, quote, Separators.spaces]
  · intro hread
    have hplain := (shown_read_back_iff_isPlain .blanks tabbedProgram).1.1 hread
    exact absurd (hplain.program '\t' (by decide)).2 (by decide)

/-- A program with a space in its name. -/
def spacedProgram : Command :=
  ⟨"my cargo", ["check"], ⟨"/w"⟩⟩

/-- The program is shown without quotes, and so the space in its name parts it. -/
theorem not_forall_shown_read_back :
    (∀ separators : Separators,
        words separators spacedProgram.display ≠
          spacedProgram.program :: spacedProgram.arguments) ∧
      ¬ ∀ command other : Command, command.display = other.display →
        command.program = other.program ∧ command.arguments = other.arguments := by
  refine ⟨fun separators hread => ?_, fun hall => ?_⟩
  · have hspace := (words_display_iff.1 hread).program ' ' (by decide)
    rw [separators.space] at hspace
    exact absurd hspace.2 (by decide)
  · have hsame := hall spacedProgram ⟨"my", ["cargo", "check"], ⟨"/w"⟩⟩ (by decide)
    exact absurd hsame.1 (by decide)

end Command
end TargetLint
