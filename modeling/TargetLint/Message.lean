import TargetLint.Json.Reader
import TargetLint.Json.Record

/-!
# Checker messages

With a JSON message format the build tool writes one record per line.  Only the
fields that matter here are read.  Records of other kinds have no message and
decode all the same.
-/

namespace TargetLint
namespace Message

/-- A place that a message points at, counted from one, with the source lines it covers. -/
structure Span where
  fileName : String
  lineStart : UInt32
  lineEnd : UInt32
  columnStart : UInt32
  columnEnd : UInt32
  isPrimary : Bool
  label : Option String
  text : List String
deriving DecidableEq, Repr, Inhabited

/-- What the compiler reports, with the messages of the notes attached to it. -/
structure Report where
  message : String
  level : String
  code : Option String
  spans : List Span
  children : List String
deriving DecidableEq, Repr, Inhabited

/-- One record of the stream. -/
structure Line where
  reason : Option String
  packageId : Option String
  target : Option String
  report : Option Report
deriving DecidableEq, Repr, Inhabited

/-- The span that a report is about: the first that is marked as primary. -/
def Report.primary? (report : Report) : Option Span :=
  report.spans.find? Span.isPrimary

/-- The name under which the record's source is shown. -/
def Line.origin (line : Line) : String :=
  (line.target.or line.packageId).getD "unknown crate"

/-- The text of a record that has only one field. -/
def soleText? (name : String) : Json.Decoder String := fun json => do
  (← json.record? [name]).required? name Json.text?

/-- The fields of a span in their order. -/
def Span.fields : List String :=
  ["file_name", "line_start", "line_end", "column_start", "column_end", "is_primary",
   "label", "text"]

/-- A span record. -/
def Span.ofJson? : Json.Decoder Span := fun json => do
  let record ← json.record? fields
  return {
    fileName := ← record.required? "file_name" Json.text?
    lineStart := ← record.required? "line_start" Json.word?
    lineEnd := ← record.required? "line_end" Json.word?
    columnStart := ← record.required? "column_start" Json.word?
    columnEnd := ← record.required? "column_end" Json.word?
    isPrimary := ← record.optional? "is_primary" Json.flag? false
    label := ← record.optional? "label" (Json.nullable? Json.text?) none
    text := ← record.optional? "text" (Json.listOf? (soleText? "text")) [] }

/-- The fields of a report in their order. -/
def Report.fields : List String :=
  ["message", "level", "code", "spans", "children"]

/-- A report record. -/
def Report.ofJson? : Json.Decoder Report := fun json => do
  let record ← json.record? fields
  return {
    message := ← record.required? "message" Json.text?
    level := ← record.required? "level" Json.text?
    code := ← record.optional? "code" (Json.nullable? (soleText? "code")) none
    spans := ← record.optional? "spans" (Json.listOf? Span.ofJson?) []
    children := ← record.optional? "children" (Json.listOf? (soleText? "message")) [] }

/-- The fields of a stream record in their order. -/
def Line.fields : List String :=
  ["reason", "package_id", "target", "message"]

/-- A stream record. -/
def Line.ofJson? : Json.Decoder Line := fun json => do
  let record ← json.record? fields
  return {
    reason := ← record.optional? "reason" (Json.nullable? Json.text?) none
    packageId := ← record.optional? "package_id" (Json.nullable? Json.text?) none
    target := ← record.optional? "target" (Json.nullable? (soleText? "name")) none
    report := ← record.optional? "message" (Json.nullable? Report.ofJson?) none }

/-- The record on a line; absent where the line is not JSON or not such a record. -/
def Line.decode? (text : String) : Option Line := do
  Line.ofJson? (← Json.read? text)

end Message
end TargetLint
