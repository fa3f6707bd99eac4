import TargetLint.ToolVersion

/-!
# Ways of checking a target

The build tool has a command of its own for checking a target since some minor
release of version zero.  An older tool is made to stop a compilation before code is
made.
-/

namespace TargetLint

/-- How a target is checked: by the command for it, or by a compilation that makes no code. -/
inductive CheckMode where
  | check
  | withoutCode
deriving DecidableEq, Repr, Inhabited

namespace CheckMode

/-- The first minor release of version zero that has a command for checking. -/
def firstMinor : UInt32 :=
  16

/-- The mode that a version of the tool allows. -/
def ofVersion (version : ToolVersion) : CheckMode :=
  if 1 ≤ version.major || firstMinor ≤ version.minor then .check else .withoutCode

/-- The mode that the tool's words about its version call for; checking, where they tell none. -/
def ofVersionText (text : String) : CheckMode :=
  ((ToolVersion.parse? text).map ofVersion).getD .check

end CheckMode
end TargetLint
