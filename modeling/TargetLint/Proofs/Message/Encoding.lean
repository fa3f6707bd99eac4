import TargetLint.Message
import TargetLint.Proofs.Json.Assembly
import TargetLint.Proofs.Json.Record
import TargetLint.Proofs.Json.Writing

/-!
# What encodes a stream record is read as this record

A stream record is encoded by an object that has each of its fields at most once, in any
order, among any other members; so are the reports, spans and notes in it.  A field whose
value is absent, empty or false may be left out.  Whichever way such an object is written,
the line is decoded as the record: nothing that is added to a record, moved in it or
written in another way keeps it from being read.
-/

namespace TargetLint
namespace Message

open Json Encoding

/-- A text is encoded by an object that has it in its only known field. -/
def soleText (name : String) : Encoding String := fun value json =>
  ∃ members, json = ofMembers members ∧ members.HasOnce [name] ∧
    members.Gives name .text value

/-- The members give the fields of a span. -/
structure Span.GivenBy (span : Span) (members : Record) : Prop where
  once : members.HasOnce fields
  fileName : members.Gives "file_name" .text span.fileName
  lineStart : members.Gives "line_start" .word span.lineStart
  lineEnd : members.Gives "line_end" .word span.lineEnd
  columnStart : members.Gives "column_start" .word span.columnStart
  columnEnd : members.Gives "column_end" .word span.columnEnd
  isPrimary : members.GivesOr "is_primary" .flag false span.isPrimary
  label : members.GivesOr "label" (.nullable .text) none span.label
  text : members.GivesOr "text" (.list (soleText "text")) [] span.text

/-- A span is encoded by an object that gives its fields. -/
def Span.Encodes : Encoding Span := fun span json =>
  ∃ members, json = ofMembers members ∧ span.GivenBy members

/-- The members give the fields of a report. -/
structure Report.GivenBy (report : Report) (members : Record) : Prop where
  once : members.HasOnce fields
  message : members.Gives "message" .text report.message
  level : members.Gives "level" .text report.level
  code : members.GivesOr "code" (.nullable (soleText "code")) none report.code
  spans : members.GivesOr "spans" (.list Span.Encodes) [] report.spans
  children : members.GivesOr "children" (.list (soleText "message")) [] report.children

/-- A report is encoded by an object that gives its fields. -/
def Report.Encodes : Encoding Report := fun report json =>
  ∃ members, json = ofMembers members ∧ report.GivenBy members

/-- The members give the fields of a stream record. -/
structure Line.GivenBy (line : Line) (members : Record) : Prop where
  once : members.HasOnce fields
  reason : members.GivesOr "reason" (.nullable .text) none line.reason
  packageId : members.GivesOr "package_id" (.nullable .text) none line.packageId
  target : members.GivesOr "target" (.nullable (soleText "name")) none line.target
  report : members.GivesOr "message" (.nullable Report.Encodes) none line.report

/-- A stream record is encoded by an object that gives its fields. -/
def Line.Encodes : Encoding Line := fun line json =>
  ∃ members, json = ofMembers members ∧ line.GivenBy members

theorem exists_soleText
    (name value : String) :
    ∃ json, soleText name value json :=
  ⟨_, [(name, .string (some value))], rfl, hasOnce_of_nodup rfl (by simp), _, by simp, rfl⟩

theorem Span.exists_encodes (span : Span) : ∃ json, span.Encodes json := by
  obtain ⟨label, hlabel⟩ := exists_nullable exists_text span.label
  obtain ⟨text, htext⟩ := exists_list (exists_soleText "text") span.text
  refine ⟨_, [("file_name", .string (some span.fileName)),
    ("line_start", .number (.natural span.lineStart.toNat)),
    ("line_end", .number (.natural span.lineEnd.toNat)),
    ("column_start", .number (.natural span.columnStart.toNat)),
    ("column_end", .number (.natural span.columnEnd.toNat)),
    ("is_primary", .boolean span.isPrimary), ("label", label), ("text", text)], rfl, ?_⟩
  constructor
  case once => exact hasOnce_of_nodup rfl (by decide)
  case fileName | lineStart | lineEnd | columnStart | columnEnd => exact ⟨_, by simp, rfl⟩
  case isPrimary => exact .inl ⟨_, by simp, rfl⟩
  case label => exact .inl ⟨_, by simp, hlabel⟩
  case text => exact .inl ⟨_, by simp, htext⟩

theorem Report.exists_encodes (report : Report) : ∃ json, report.Encodes json := by
  obtain ⟨code, hcode⟩ := exists_nullable (exists_soleText "code") report.code
  obtain ⟨spans, hspans⟩ := exists_list Span.exists_encodes report.spans
  obtain ⟨children, hchildren⟩ := exists_list (exists_soleText "message") report.children
  refine ⟨_, [("message", .string (some report.message)), ("level", .string (some report.level)),
    ("code", code), ("spans", spans), ("children", children)], rfl, ?_⟩
  constructor
  case once => exact hasOnce_of_nodup rfl (by decide)
  case message | level => exact ⟨_, by simp, rfl⟩
  case code => exact .inl ⟨_, by simp, hcode⟩
  case spans => exact .inl ⟨_, by simp, hspans⟩
  case children => exact .inl ⟨_, by simp, hchildren⟩

theorem Line.exists_encodes (line : Line) : ∃ json, line.Encodes json := by
  obtain ⟨reason, hreason⟩ := exists_nullable exists_text line.reason
  obtain ⟨packageId, hpackageId⟩ := exists_nullable exists_text line.packageId
  obtain ⟨target, htarget⟩ := exists_nullable (exists_soleText "name") line.target
  obtain ⟨report, hreport⟩ := exists_nullable Report.exists_encodes line.report
  refine ⟨_, [("reason", reason), ("package_id", packageId), ("target", target),
    ("message", report)], rfl, ?_⟩
  constructor
  case once => exact hasOnce_of_nodup rfl (by decide)
  case reason => exact .inl ⟨_, by simp, hreason⟩
  case packageId => exact .inl ⟨_, by simp, hpackageId⟩
  case target => exact .inl ⟨_, by simp, htarget⟩
  case report => exact .inl ⟨_, by simp, hreport⟩

theorem reads_soleText (name : String) : Decoder.Reads (soleText? name) (soleText name) := by
  rintro value json ⟨members, rfl, honce, hgives⟩
  simp [soleText?, record?_ofMembers honce,
    required?_of_gives honce (by simp) reads_text hgives]

theorem Span.reads_ofJson? : Decoder.Reads ofJson? Encodes := by
  rintro span json ⟨members, rfl, h⟩
  have hlabel := reads_nullable reads_text rfl
  have htext := reads_listOf (reads_soleText "text")
  simp [ofJson?, record?_ofMembers h.once,
    required?_of_gives h.once (by simp [fields]) reads_text h.fileName,
    required?_of_gives h.once (by simp [fields]) reads_word h.lineStart,
    required?_of_gives h.once (by simp [fields]) reads_word h.lineEnd,
    required?_of_gives h.once (by simp [fields]) reads_word h.columnStart,
    required?_of_gives h.once (by simp [fields]) reads_word h.columnEnd,
    optional?_of_givesOr h.once (by simp [fields]) reads_flag h.isPrimary,
    optional?_of_givesOr h.once (by simp [fields]) hlabel h.label,
    optional?_of_givesOr h.once (by simp [fields]) htext h.text]

theorem Report.reads_ofJson? : Decoder.Reads ofJson? Encodes := by
  rintro report json ⟨members, rfl, h⟩
  have hcode := reads_nullable (reads_soleText "code") rfl
  have hspans := reads_listOf Span.reads_ofJson?
  have hchildren := reads_listOf (reads_soleText "message")
  simp [ofJson?, record?_ofMembers h.once,
    required?_of_gives h.once (by simp [fields]) reads_text h.message,
    required?_of_gives h.once (by simp [fields]) reads_text h.level,
    optional?_of_givesOr h.once (by simp [fields]) hcode h.code,
    optional?_of_givesOr h.once (by simp [fields]) hspans h.spans,
    optional?_of_givesOr h.once (by simp [fields]) hchildren h.children]

theorem Line.reads_ofJson? : Decoder.Reads ofJson? Encodes := by
  rintro line json ⟨members, rfl, h⟩
  have htext := reads_nullable reads_text rfl
  have htarget := reads_nullable (reads_soleText "name") rfl
  have hreport := reads_nullable Report.reads_ofJson? rfl
  simp [ofJson?, record?_ofMembers h.once,
    optional?_of_givesOr h.once (by simp [fields]) htext h.reason,
    optional?_of_givesOr h.once (by simp [fields]) htext h.packageId,
    optional?_of_givesOr h.once (by simp [fields]) htarget h.target,
    optional?_of_givesOr h.once (by simp [fields]) hreport h.report]

/-- A stream record has a JSON text, and any text that encodes it is decoded as the record. -/
theorem Line.decode?_of_encodes (line : Line) :
    (∃ json text, line.Encodes json ∧ json.IsWritten text) ∧
    ∀ json text, line.Encodes json → json.IsWritten text → decode? text = some line := by
  constructor
  · obtain ⟨json, hjson⟩ := line.exists_encodes
    obtain ⟨text, htext⟩ := exists_isWritten json
    exact ⟨json, text, hjson, htext⟩
  · intro json text hjson htext
    rw [decode?, read?_of_isWritten htext]
    exact reads_ofJson? line json hjson

/-- A line with unknown members, fields in another order, escapes and gaps. -/
def sampleText : String :=
  "\x7b\"rendered\":[-15e2,\"\\ud800\"],\r\n \"message\":" ++
    "\x7b\"level\":\"note\",\"mess\\u0061ge\":\"a\\/b\"\x7d,\"reason\":null\x7d\n"

/-- The report on the line. -/
def sampleReport : Report :=
  { message := "a/b", level := "note", code := none, spans := [], children := [] }

/-- The record on the line. -/
def sampleLine : Line :=
  { reason := none, packageId := none, target := none, report := some sampleReport }

/-- The members that give the report. -/
def sampleReportMembers : Record :=
  [("level", .string (some "note")), ("message", .string (some "a/b"))]

/-- The members that give the record. -/
def sampleMembers : Record :=
  [("rendered", .array [.number .other, .string none]),
   ("message", ofMembers sampleReportMembers), ("reason", .null)]

/-- The tokens of the line, each with the gap before it and the way it is written. -/
def samplePieces : List (List Char × Token × List Char) :=
  [([], .openObject, ['\x7b']), ([], .string (some "rendered"), "\"rendered\"".toList),
   ([], .colon, [':']), ([], .openArray, ['[']), ([], .number .other, ['-', '1', '5', 'e', '2']),
   ([], .comma, [',']), ([], .string none, '"' :: (loneSurrogate ++ ['"'])),
   ([], .closeArray, [']']), ([], .comma, [',']),
   (['\r', '\n', ' '], .string (some "message"), "\"message\"".toList), ([], .colon, [':']),
   ([], .openObject, ['\x7b']), ([], .string (some "level"), "\"level\"".toList),
   ([], .colon, [':']), ([], .string (some "note"), "\"note\"".toList), ([], .comma, [',']),
   ([], .string (some "message"), "\"mess\\u0061ge\"".toList), ([], .colon, [':']),
   ([], .string (some "a/b"), "\"a\\/b\"".toList), ([], .closeObject, ['\x7d']),
   ([], .comma, [',']), ([], .string (some "reason"), "\"reason\"".toList), ([], .colon, [':']),
   ([], .null, ['n', 'u', 'l', 'l']), ([], .closeObject, ['\x7d'])]

theorem lexeme_of_mem_samplePieces :
    ∀ piece ∈ samplePieces, IsGap piece.1 ∧ piece.2.1.Lexeme piece.2.2 := by
  have hplain : ∀ text : String, text.toList.all (IsPlain ·) = true →
      Token.Lexeme (.string (some text)) ('"' :: (text.toList ++ ['"'])) :=
    fun text h => .text (spells_self h)
  have hnumber : Token.Lexeme (.number .other) ['-', '1', '5', 'e', '2'] := by
    refine .other ⟨['-'], by simp, 15, [], ['e', '2'], .inl rfl, .inr ?_, by simp, rfl⟩
    exact ⟨'e', by simp, [], by simp, ['2'], ⟨by simp, by simp⟩, rfl⟩
  have hkey : Token.Lexeme (.string (some "message"))
      ('"' :: ("mess\\u0061ge".toList ++ ['"'])) := by
    have hcode : IsCode 'a'.toNat ['0', '0', '6', '1'] :=
      isCode_of_getElem? (a := 0) (b := 0) (c := 6) (d := 1) rfl rfl rfl rfl
    have htail : Spells ['g', 'e'] ['g', 'e'] := spells_self (by decide)
    exact .text (.plain (by decide) (.plain (by decide) (.plain (by decide) (.plain (by decide)
      (.code hcode htail)))))
  have hvalue : Token.Lexeme (.string (some "a/b")) ('"' :: ("a\\/b".toList ++ ['"'])) := by
    have htail : Spells ['b'] ['b'] := spells_self (by decide)
    exact .text (.plain (by decide) (.short (by decide) htail))
  have hgaps : ∀ piece ∈ samplePieces, IsGap piece.1 := by decide
  have hlexemes : ∀ piece ∈ samplePieces, piece.2.1.Lexeme piece.2.2 := by
    simp only [samplePieces, List.forall_mem_cons]
    refine ⟨.openObject, hplain "rendered" (by decide), .colon, .openArray, hnumber, .comma,
      lexeme_loneSurrogate, .closeArray, .comma, hplain "message" (by decide), .colon, .openObject,
      hplain "level" (by decide), .colon, hplain "note" (by decide), .comma, hkey, .colon, hvalue,
      .closeObject, .comma, hplain "reason" (by decide), .colon, .null, .closeObject, ?_⟩
    simp
  exact fun piece h => ⟨hgaps piece h, hlexemes piece h⟩

theorem isWritten_sampleText : (ofMembers sampleMembers).IsWritten sampleText := by
  have htext : sampleText.toList =
      samplePieces.flatMap (fun piece => piece.1 ++ piece.2.2) ++ ['\n'] := by decide
  have htokens : (ofMembers sampleMembers).tokens = samplePieces.map fun piece => piece.2.1 := by
    rfl
  rw [IsWritten, htext, htokens]
  exact written_flatMap lexeme_of_mem_samplePieces (by decide)

theorem encodes_sampleMembers : sampleLine.Encodes (ofMembers sampleMembers) := by
  have hreport : sampleReport.GivenBy sampleReportMembers := by
    constructor
    case once => decide
    case message | level => exact ⟨_, by simp [sampleReportMembers, sampleReport], rfl⟩
    case code | spans | children => exact .inr ⟨by decide, rfl⟩
  refine ⟨sampleMembers, rfl, ?_⟩
  constructor
  case once => decide
  case reason => exact .inl ⟨.null, by simp [sampleMembers], rfl⟩
  case packageId | target => exact .inr ⟨by decide, rfl⟩
  case report => exact .inl ⟨_, by simp [sampleMembers], _, rfl, hreport⟩

theorem decode?_sampleText :
    sampleLine.Encodes (ofMembers sampleMembers) ∧ (ofMembers sampleMembers).IsWritten sampleText ∧
    Line.decode? sampleText = some sampleLine :=
  ⟨encodes_sampleMembers, isWritten_sampleText,
    (Line.decode?_of_encodes sampleLine).2 _ _ encodes_sampleMembers isWritten_sampleText⟩

end Message
end TargetLint
