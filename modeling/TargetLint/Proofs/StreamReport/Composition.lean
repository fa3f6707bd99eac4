import TargetLint.Proofs.StreamReport.Stream
import TargetLint.Proofs.Text.Lines

/-!
# The report on a text, line by line and half by half

Where the numbered lines of a text are those of two halves, so is the report: each
file has what it has by the first half and then what it has by the second.  Line by
line, what a file has is put together from what every line yields by itself, and a
line is noted as skipped if and only if it is not blank and does not decode.
-/

namespace TargetLint

/-- The diagnostic that a line of a text yields by itself. -/
def ProjectFiles.lineDiagnostic? (files : ProjectFiles) (line : String) : Option Diagnostic :=
  if Text.trim line = "" then
    none
  else
    (Message.Line.decode? (Text.trim line)).bind (Message.Line.diagnostic? files)

/-- The line is not blank and does not decode. -/
def Message.IsMalformed (line : String) : Prop :=
  Text.trim line ≠ "" ∧ Message.Line.decode? (Text.trim line) = none

instance (line : String) : Decidable (Message.IsMalformed line) :=
  inferInstanceAs (Decidable (_ ∧ _))

namespace MessageStream

variable (files : ProjectFiles)

theorem ofText_append (before after : String) :
    ofText (before ++ "\n" ++ after) =
      ofText before ++
        (ofText after).map fun line => (line.1 + (1 + before.toList.count '\n'), line.2) := by
  rw [ofText, ofText, ofText, Text.numberedLines_append]
  simp [List.map_map, Function.comp_def]

theorem yields_append (first second : MessageStream) :
    yields (first ++ second) files = first.yields files ++ second.yields files :=
  List.filterMap_append

theorem undecoded_append (first second : MessageStream) :
    undecoded (first ++ second) = first.undecoded ++ second.undecoded := by
  rw [undecoded, List.filter_append, List.map_append]
  rfl

theorem yields_renumbered
    (stream : MessageStream)
    (renumber : Nat → Nat) :
    yields (stream.map fun line => (renumber line.1, line.2)) files = stream.yields files := by
  rw [yields, List.filterMap_map]
  rfl

theorem undecoded_renumbered
    (stream : MessageStream)
    (renumber : Nat → Nat) :
    undecoded (stream.map fun line => (renumber line.1, line.2)) =
      stream.undecoded.map renumber := by
  rw [undecoded, undecoded, List.filter_map, List.map_map, List.map_map]
  rfl

/-- Every line of a text yields its diagnostic by itself. -/
theorem yields_ofText (text : String) :
    (ofText text).yields files = (Text.lines text).filterMap files.lineDiagnostic? := by
  have hline : ∀ line : String × Nat,
      (Text.numberedLine? line).bind
          (fun line => files.yield? (line.1, Message.Line.decode? line.2)) =
        files.lineDiagnostic? line.1 := by
    intro line
    by_cases hblank : Text.trim line.1 = "" <;>
      simp [Text.numberedLine?, ProjectFiles.yield?, ProjectFiles.lineDiagnostic?, hblank]
  have hlines : ((Text.lines text).zipIdx 1).map Prod.fst = Text.lines text :=
    List.zipIdx_map_fst 1 (Text.lines text)
  calc
    (ofText text).yields files
        = ((Text.lines text).zipIdx 1).filterMap fun line => files.lineDiagnostic? line.1 := by
          rw [yields, ofText, List.filterMap_map, Text.numberedLines_eq_filterMap,
            List.filterMap_filterMap]
          exact congrArg (List.filterMap · _) (funext hline)
    _ = (Text.lines text).filterMap files.lineDiagnostic? := by
          rw [← hlines, List.filterMap_map, hlines]
          rfl

/-- The lines of a text that do not decode, with their numbers counted from one. -/
theorem undecoded_ofText (text : String) :
    (ofText text).undecoded =
      (((Text.lines text).zipIdx 1).filter fun line => Message.IsMalformed line.1).map
        Prod.snd := by
  rw [undecoded, ofText, Text.numberedLines_eq_filterMap]
  induction (Text.lines text).zipIdx 1 with
  | nil => rfl
  | cons line rest ih =>
      by_cases hblank : Text.trim line.1 = ""
      · simpa [Text.numberedLine?, Message.IsMalformed, hblank] using ih
      · cases hdecoded : Message.Line.decode? (Text.trim line.1) with
        | none => simpa [Text.numberedLine?, Message.IsMalformed, hblank, hdecoded] using ih
        | some record => simpa [Text.numberedLine?, Message.IsMalformed, hblank, hdecoded] using ih

/-- Numbers of lines come in ascending order. -/
theorem undecoded_ofText_pairwise (text : String) :
    (ofText text).undecoded.Pairwise (· < ·) := by
  have hnumbers : ((Text.lines text).zipIdx 1).map Prod.snd =
      List.range' 1 (Text.lines text).length :=
    List.zipIdx_map_snd 1 (Text.lines text)
  have hsublist : ((ofText text).undecoded).Sublist (List.range' 1 (Text.lines text).length) := by
    rw [undecoded_ofText, ← hnumbers]
    exact (List.filter_sublist).map Prod.snd
  have hrange := List.pairwise_lt_range' (s := 1) (n := (Text.lines text).length) 1 (by decide)
  exact hrange.sublist hsublist

theorem mem_undecoded_ofText_iff
    {text : String}
    {number : Nat} :
    number ∈ (ofText text).undecoded ↔
      ∃ index line, number = index + 1 ∧ (Text.lines text)[index]? = some line ∧
        Message.IsMalformed line := by
  rw [undecoded_ofText]
  simp only [List.mem_map, List.mem_filter, decide_eq_true_eq, Prod.exists, exists_eq_right,
    List.mem_zipIdx_iff_le_and_getElem?_sub]
  constructor
  · rintro ⟨line, ⟨hstart, hline⟩, hmalformed⟩
    exact ⟨number - 1, line, by omega, hline, hmalformed⟩
  · rintro ⟨index, line, rfl, hline, hmalformed⟩
    exact ⟨line, ⟨by omega, by simpa using hline⟩, hmalformed⟩

end MessageStream

namespace StreamReport

variable (files : ProjectFiles)

/-- Each file has what it has by the first half and then what it has by the second. -/
theorem diagnosticsOf_ofText_append
    (before after : String)
    (path : Path) :
    (ofText files (before ++ "\n" ++ after)).diagnostics.diagnosticsOf path =
      (ofText files before).diagnostics.diagnosticsOf path ++
        (ofText files after).diagnostics.diagnosticsOf path := by
  unfold ofText
  rw [diagnosticsOf_ofStream, diagnosticsOf_ofStream, diagnosticsOf_ofStream,
    MessageStream.ofText_append, MessageStream.yields_append,
    MessageStream.yields_renumbered files _ (· + (1 + before.toList.count '\n')),
    List.filter_append]

theorem contains_ofText_append
    (before after : String)
    (path : Path) :
    (ofText files (before ++ "\n" ++ after)).diagnostics.contains path =
      ((ofText files before).diagnostics.contains path ||
        (ofText files after).diagnostics.contains path) := by
  unfold ofText
  rw [contains_ofStream, contains_ofStream, contains_ofStream,
    MessageStream.ofText_append, MessageStream.yields_append,
    MessageStream.yields_renumbered files _ (· + (1 + before.toList.count '\n')),
    List.any_append]

theorem skipped_ofText_append (before after : String) :
    (ofText files (before ++ "\n" ++ after)).skipped =
      (ofText files before).skipped ++
        (ofText files after).skipped.map (· + (1 + before.toList.count '\n')) := by
  unfold ofText
  rw [skipped_ofStream, skipped_ofStream, skipped_ofStream, MessageStream.ofText_append,
    MessageStream.undecoded_append,
    MessageStream.undecoded_renumbered _ (· + (1 + before.toList.count '\n'))]

theorem diagnosticsOf_ofText
    (text : String)
    (path : Path) :
    (ofText files text).diagnostics.diagnosticsOf path =
      ((Text.lines text).filterMap files.lineDiagnostic?).filter fun diagnostic =>
        diagnostic.path.Same path := by
  rw [ofText, diagnosticsOf_ofStream, MessageStream.yields_ofText]

theorem total_ofText (text : String) :
    (ofText files text).total =
      (Text.lines text).countP fun line => (files.lineDiagnostic? line).isSome := by
  rw [ofText, total_ofStream, MessageStream.yields_ofText, List.length_filterMap_eq_countP]

theorem mem_skipped_ofText_iff
    {text : String}
    {number : Nat} :
    number ∈ (ofText files text).skipped ↔
      ∃ index line, number = index + 1 ∧ (Text.lines text)[index]? = some line ∧
        Message.IsMalformed line := by
  rw [ofText, skipped_ofStream, MessageStream.mem_undecoded_ofText_iff]

theorem skipped_ofText_pairwise (text : String) :
    (ofText files text).skipped.Pairwise (· < ·) := by
  rw [ofText, skipped_ofStream]
  exact MessageStream.undecoded_ofText_pairwise text

/-- A line that is not blank is noted once, or decodes and yields what its record does. -/
theorem line_accounted_for
    {text line : String}
    {index : Nat}
    (hline : (Text.lines text)[index]? = some line)
    (hblank : Text.trim line ≠ "") :
    (Message.Line.decode? (Text.trim line) = none ∧
        (ofText files text).skipped.count (index + 1) = 1) ∨
      ∃ record, Message.Line.decode? (Text.trim line) = some record ∧
        index + 1 ∉ (ofText files text).skipped ∧
        files.lineDiagnostic? line = record.diagnostic? files := by
  cases hdecoded : Message.Line.decode? (Text.trim line) with
  | none =>
      have hmem : index + 1 ∈ (ofText files text).skipped :=
        (mem_skipped_ofText_iff files).2 ⟨index, line, rfl, hline, hblank, hdecoded⟩
      have hnodup : (ofText files text).skipped.Nodup :=
        (skipped_ofText_pairwise files text).imp Nat.ne_of_lt
      exact Or.inl ⟨rfl, hnodup.count.trans (if_pos hmem)⟩
  | some record =>
      refine Or.inr ⟨record, rfl, ?_, by simp [ProjectFiles.lineDiagnostic?, hblank, hdecoded]⟩
      intro hmem
      obtain ⟨other, same, hindex, hsame, hmalformed⟩ := (mem_skipped_ofText_iff files).1 hmem
      obtain rfl : index = other := by omega
      obtain rfl : line = same := by
        rw [hline] at hsame
        exact Option.some.inj hsame
      rw [hmalformed.2] at hdecoded
      cases hdecoded

/-- A single line that does not decode yields nothing for any file. -/
theorem diagnosticsOf_ofText_of_malformed
    {line : String}
    (hnewline : '\n' ∉ line.toList)
    (hmalformed : Message.IsMalformed line)
    (path : Path) :
    (ofText files line).diagnostics.diagnosticsOf path = [] := by
  rw [ofText, diagnosticsOf_ofStream, MessageStream.yields, MessageStream.ofText,
    Text.numberedLines_eq_pieces, Text.pieces_of_not_mem hnewline]
  simp [Text.numberedLine?, hmalformed.1, hmalformed.2, ProjectFiles.yield?]

end StreamReport
end TargetLint
