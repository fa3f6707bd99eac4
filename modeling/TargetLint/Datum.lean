/-!
# Data of configuration

A tree that does not tell in which format it was written.  Whatever settings cannot
use, such as numbers, is one and the same.
-/

namespace TargetLint

/-- A configuration value; tables are in the order in which they are looked at. -/
inductive Datum where
  | null
  | flag (value : Bool)
  | text (value : String)
  | list (items : List Datum)
  | table (members : List (String × Datum))
  | other
deriving Repr, Inhabited

end TargetLint
