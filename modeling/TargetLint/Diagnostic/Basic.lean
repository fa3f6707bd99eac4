import TargetLint.Total
import TargetLint.Path.Table
import TargetLint.Diagnostic.Severity
import TargetLint.Diagnostic.Region

/-!
# Diagnostics

A diagnostic is what a checker says about a place in a file.  Diagnostics are
grouped by file; within a file they keep the order in which they arrived.
-/

namespace TargetLint

/-- What a checker says about a place in a file. -/
structure Diagnostic where
  path : Path
  region : Region
  severity : Severity
  message : String
  code : Option String
deriving DecidableEq, Repr, Inhabited

namespace Diagnostic

/-- The code in brackets, nothing where there is none. -/
def codeLabel (diagnostic : Diagnostic) : String :=
  match diagnostic.code with
  | some code => s!"[{code}]"
  | none => ""

/-- Path, position, severity with code, and message on one line. -/
def display (diagnostic : Diagnostic) : String :=
  let position := diagnostic.region.display
  let severity := diagnostic.severity.label ++ diagnostic.codeLabel
  s!"{diagnostic.path.text}:{position}: {severity}: {diagnostic.message}"

/-- The diagnostic is an error. -/
def isError (diagnostic : Diagnostic) : Bool :=
  diagnostic.severity = .error

/-- The diagnostic is a warning. -/
def isWarning (diagnostic : Diagnostic) : Bool :=
  diagnostic.severity = .warning

end Diagnostic

/-- Diagnostics by file, in the order of arrival within each file. -/
abbrev DiagnosticTable :=
  PathTable (List Diagnostic)

namespace DiagnosticTable

/-- Put diagnostics after those that the file already has. -/
def append
    (files : DiagnosticTable)
    (path : Path)
    (diagnostics : List Diagnostic) :
    DiagnosticTable :=
  files.set path ((files.get? path).getD [] ++ diagnostics)

/-- The number of diagnostics of one severity. -/
def countOf (files : DiagnosticTable) (severity : Severity) : Nat :=
  totalOf (fun entry => entry.2.countP (·.severity = severity)) files.entries

/-- The number of diagnostics. -/
def total (files : DiagnosticTable) : Nat :=
  totalOf (fun entry => entry.2.length) files.entries

end DiagnosticTable
end TargetLint
