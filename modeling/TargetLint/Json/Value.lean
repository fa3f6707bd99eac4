/-!
# JSON values

The tree that a JSON text denotes, with members in the order and number in which
they were written.  Two things are kept apart that readers treat differently: a
string whose escapes spell no text (an unpaired surrogate) may be skipped but not
read, and a number that is written without sign, fraction and exponent may be read
as a word while any other number may only be skipped.
-/

namespace TargetLint

/-- A number as far as a reader can use it: one that is written with digits only, or another. -/
inductive Json.Number where
  | natural (value : Nat)
  | other
deriving DecidableEq, Repr

/-- A JSON value; a string is absent where its escapes spell no text. -/
inductive Json where
  | null
  | boolean (value : Bool)
  | number (value : Json.Number)
  | string (text : Option String)
  | array (items : List Json)
  | object (members : List (Option String × Json))
deriving Repr, Inhabited

end TargetLint
