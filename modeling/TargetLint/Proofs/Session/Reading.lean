import TargetLint.Session.Basic
import TargetLint.Proofs.StreamReport.Conversion
import Mathlib.Data.List.Basic

/-!
# What a session reads

To report on a stream, a session asks which of the paths exist that the stream's primary spans name
within the project.  It asks about no other path.  The report is the one that full knowledge of
what exists leads to.
-/

namespace TargetLint

/-- A project whose files are those that the host says exist. -/
def ProjectFiles.seenBy (settings : Settings) (host : Host) (project : Project) : ProjectFiles :=
  ⟨project, settings.manifest, fun path => host (.fileExists path)⟩

variable {project : Project} {manifest : String} {holds other : Path → Bool}

theorem ProjectFiles.named?_congr
    {fileName : String}
    (h : ∀ path, project.place? fileName = some path → holds path = other path) :
    ProjectFiles.named? ⟨project, manifest, holds⟩ fileName =
      ProjectFiles.named? ⟨project, manifest, other⟩ fileName := by
  unfold named?
  cases hplace : project.place? fileName with
  | none => rfl
  | some path => simp only [Option.filter_some, h path hplace]

namespace Message

/-- All that counts for a report is whether the file exists that its primary span names. -/
theorem Report.diagnostic?_congr
    {report : Report}
    (h : ∀ primary path, report.primary? = some primary →
      project.place? primary.fileName = some path → holds path = other path)
    (origin : String) :
    report.diagnostic? ⟨project, manifest, holds⟩ origin =
      report.diagnostic? ⟨project, manifest, other⟩ origin := by
  cases hremark : isClosingRemark report.message with
  | true =>
      unfold Report.diagnostic?
      rw [hremark]
      rfl
  | false =>
      cases hprimary : report.primary? with
      | none =>
          unfold Report.diagnostic?
          rw [hremark, hprimary]
          rfl
      | some primary =>
          rw [report.diagnostic?_eq _ origin hremark hprimary,
            report.diagnostic?_eq _ origin hremark hprimary,
            ProjectFiles.named?_congr fun path hplace => h primary path hprimary hplace]
          rfl

end Message

theorem MessageStream.mem_places
    {stream : MessageStream}
    {line : Nat × Option Message.Line}
    {record : Message.Line}
    {report : Message.Report}
    {primary : Message.Span}
    {path : Path}
    (hline : line ∈ stream)
    (hrecord : line.2 = some record)
    (hreport : record.report = some report)
    (hprimary : report.primary? = some primary)
    (hplace : project.place? primary.fileName = some path) :
    path ∈ stream.places project :=
  List.mem_filterMap.2 ⟨line, hline, by simp [hrecord, hreport, hprimary, hplace]⟩

/-- All that counts for a stream is which of its places exist. -/
theorem StreamReport.ofStream_congr
    {stream : MessageStream}
    (h : ∀ path ∈ stream.places project, holds path = other path) :
    ofStream ⟨project, manifest, holds⟩ stream = ofStream ⟨project, manifest, other⟩ stream := by
  refine List.foldl_ext _ _ _ fun report line hline => ?_
  unfold addLine
  cases hrecord : line.2 with
  | none => rfl
  | some record =>
      have hsame : record.diagnostic? ⟨project, manifest, holds⟩ =
          record.diagnostic? ⟨project, manifest, other⟩ := by
        unfold Message.Line.diagnostic?
        cases hreport : record.report with
        | none => rfl
        | some found =>
            refine Message.Report.diagnostic?_congr ?_ record.origin
            intro primary path hprimary hplace
            exact h path (MessageStream.mem_places hline hrecord hreport hprimary hplace)
      dsimp only
      rw [hsame]

namespace Session

theorem value_readStream
    (settings : Settings)
    (host : Host)
    (project : Project)
    (text : String) :
    (readStream settings project text).value host =
      StreamReport.ofText (.seenBy settings host project) text := by
  simp only [readStream, Consult.value_bind, Consult.value_pure, Consult.value_filter]
  refine StreamReport.ofStream_congr fun path hpath => ?_
  rw [List.contains_eq_mem, Bool.eq_iff_iff, decide_eq_true_eq, List.mem_filter]
  exact ⟨fun h => h.2, fun h => ⟨hpath, h⟩⟩

end Session
end TargetLint
