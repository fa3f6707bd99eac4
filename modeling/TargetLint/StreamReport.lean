import TargetLint.Text.Affix
import TargetLint.Text.Lines
import TargetLint.Path.Collapse
import TargetLint.Project
import TargetLint.Diagnostic.Basic
import TargetLint.Message

/-!
# Reports on a message stream

Every line of a stream that is not blank is decoded on its own.  A line that does
not decode is noted by its number and costs nothing else.  A report on an existing
file of the project becomes a diagnostic on that file; an error that points
elsewhere becomes a diagnostic on the manifest; everything else is dropped.
-/

namespace TargetLint

/-- The decoded lines of a stream with their numbers counted from one. -/
abbrev MessageStream :=
  List (Nat × Option Message.Line)

/-- The decoded lines of a text, blank lines left out. -/
def MessageStream.ofText (text : String) : MessageStream :=
  (Text.numberedLines text).map fun (number, line) => (number, Message.Line.decode? line)

/-- The path of a file name in a message, seen from the root; absent outside the project. -/
def Project.place? (project : Project) (fileName : String) : Option Path :=
  let place := (project.root.join ⟨fileName⟩).collapse
  if project.covers place then some place else none

/-- A project with the name of its manifest and what exists on the disk. -/
structure ProjectFiles where
  project : Project
  manifest : String
  holds : Path → Bool

namespace ProjectFiles

/-- The existing file of the project that a message names. -/
def named? (files : ProjectFiles) (fileName : String) : Option Path :=
  (files.project.place? fileName).filter files.holds

/-- The manifest of the project. -/
def manifestFile (files : ProjectFiles) : Path :=
  files.project.manifestFile files.manifest

end ProjectFiles

namespace Message

/-- The closing remark of a compilation that failed. -/
def isClosingRemark (message : String) : Bool :=
  message = "aborting due to previous error" ||
    (Text.startsWith message "aborting due to " &&
      (Text.endsWith message " previous error" || Text.endsWith message " previous errors"))

/-- The message whose two notes say more than it does. -/
def vagueMessage : String :=
  "mismatched types"

/--
The text shown for a report: its message, except that for mismatched types the two notes stand
in for it, or else the label of the primary span.
-/
def Report.text (report : Report) (primary : Span) : String :=
  if report.message ≠ vagueMessage then
    report.message
  else
    match report.children with
    | [first, second] => s!"{first}\n{second}"
    | _ => primary.label.getD report.message

/-- The region that a span covers. -/
def Span.region (span : Span) : Region :=
  .ofOrdinals span.lineStart span.columnStart span.lineEnd span.columnEnd

/-- The text for an error outside the project: where it comes from, where it points and the source. -/
def Span.outsideText (span : Span) (origin text : String) : String :=
  let place := s!"{span.fileName}:{span.lineStart}:{span.columnStart}: {text}"
  "\n".intercalate (s!"error in `{origin}` outside this project" :: place :: span.text)

/-- The diagnostic of a report, if it has one. -/
def Report.diagnostic?
    (files : ProjectFiles)
    (origin : String)
    (report : Report) :
    Option Diagnostic := do
  guard (!isClosingRemark report.message)
  let primary ← report.primary?
  let severity := Severity.ofLevel report.level
  let text := report.text primary
  match files.named? primary.fileName with
  | some path => return ⟨path, primary.region, severity, text, report.code⟩
  | none =>
      guard (severity = .error)
      return ⟨files.manifestFile, .origin, .error, primary.outsideText origin text, report.code⟩

/-- The diagnostic of a stream record, if it has one. -/
def Line.diagnostic? (files : ProjectFiles) (line : Line) : Option Diagnostic :=
  line.report.bind (Report.diagnostic? files line.origin)

end Message

/-- What a stream says about a project, and the numbers of the lines that do not decode. -/
structure StreamReport where
  diagnostics : DiagnosticTable
  skipped : List Nat
deriving Inhabited

namespace StreamReport

/-- The report on no line. -/
def empty : StreamReport :=
  ⟨.empty, []⟩

/-- The report after one more diagnostic. -/
def add (report : StreamReport) (diagnostic : Diagnostic) : StreamReport :=
  { report with diagnostics := report.diagnostics.append diagnostic.path [diagnostic] }

/-- The report after one more line. -/
def addLine
    (files : ProjectFiles)
    (report : StreamReport)
    (line : Nat × Option Message.Line) :
    StreamReport :=
  match line.2 with
  | none => { report with skipped := report.skipped ++ [line.1] }
  | some record => (record.diagnostic? files).elim report report.add

/-- The report on a stream. -/
def ofStream (files : ProjectFiles) (stream : MessageStream) : StreamReport :=
  stream.foldl (addLine files) empty

/-- The report on a text. -/
def ofText (files : ProjectFiles) (text : String) : StreamReport :=
  ofStream files (.ofText text)

/-- The number of diagnostics. -/
def total (report : StreamReport) : Nat :=
  report.diagnostics.total

end StreamReport

/-- The paths of the project whose existence decides the report on a stream. -/
def MessageStream.places (project : Project) (stream : MessageStream) : List Path :=
  stream.filterMap fun (_, line) => do
    let primary ← (← (← line).report).primary?
    project.place? primary.fileName

end TargetLint
