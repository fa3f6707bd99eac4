/-!
# Severities

The compiler names a level for each message.  Errors and warnings are counted;
every other level is kept as unknown.
-/

namespace TargetLint

/-- How grave a diagnostic is. -/
inductive Severity where
  | error
  | warning
  | unknown
deriving DecidableEq, Repr, Inhabited

namespace Severity

/-- The severity that a compiler level stands for; absent for any level but errors and warnings. -/
def ofLevel? (level : String) : Option Severity :=
  if level = "error" ∨ level = "error: internal compiler error" then
    some .error
  else if level = "warning" then
    some .warning
  else
    none

/-- The severity of a compiler level, unknown where it stands for none. -/
def ofLevel (level : String) : Severity :=
  (ofLevel? level).getD .unknown

/-- The word printed for a severity. -/
def label : Severity → String
  | error => "error"
  | warning => "warning"
  | unknown => "unknown"

end Severity
end TargetLint
