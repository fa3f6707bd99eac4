import TargetLint.Text.Decimal

/-!
# The time of a lint

A lint is stamped with the local time of day to the second.  A leap second is the
second in which it starts.
-/

namespace TargetLint

/-- A local time of day. -/
structure TimeOfDay where
  hour : Nat
  minute : Nat
  second : Nat
deriving DecidableEq, Repr, Inhabited

/-- The status text after a lint, such as `Linted at 09:05:03`. -/
def TimeOfDay.stamp (time : TimeOfDay) : String :=
  let hour := Text.twoDigits time.hour
  let minute := Text.twoDigits time.minute
  let second := Text.twoDigits time.second
  s!"Linted at {hour}:{minute}:{second}"

end TargetLint
