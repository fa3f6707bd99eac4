import TargetLint.Text.Decimal

/-!
# Versions of the build tool

A version is read from the tool's own words: the leftmost place where digits, a
point and digits stand together.  Major and minor number have to fit a 32-bit
word; a patch number that does not fit is left out.
-/

namespace TargetLint

/-- A version number; the patch number may be missing. -/
structure ToolVersion where
  major : UInt32
  minor : UInt32
  patch : Option UInt32
deriving DecidableEq, Repr, Inhabited

namespace ToolVersion

/-- The digits in front of a text and what follows them. -/
def splitDigits (chars : List Char) : List Char × List Char :=
  (chars.takeWhile Char.isDigit, chars.dropWhile Char.isDigit)

/-- The digits after a point in front of a text, and what follows them; absent without a digit. -/
def afterPoint? : List Char → Option (List Char × List Char)
  | '.' :: rest =>
      let (digits, others) := splitDigits rest
      if digits = [] then none else some (digits, others)
  | _ => none

/-- The numbers of a version in front of a text, as digits. -/
def digitsAt? (chars : List Char) : Option (List Char × List Char × Option (List Char)) := do
  let (major, rest) := splitDigits chars
  guard (major ≠ [])
  let (minor, others) ← afterPoint? rest
  return (major, minor, (afterPoint? others).map Prod.fst)

/-- The numbers of the leftmost version in a text, as digits. -/
def findDigits? : List Char → Option (List Char × List Char × Option (List Char))
  | [] => none
  | c :: rest => (digitsAt? (c :: rest)).or (findDigits? rest)

/-- The word that digits spell, where it fits 32 bits. -/
def word? (digits : List Char) : Option UInt32 :=
  let value := Text.digitsValue digits
  if value < UInt32.size then some (UInt32.ofNat value) else none

/-- The version that a text tells. -/
def parse? (text : String) : Option ToolVersion := do
  let (major, minor, patch) ← findDigits? text.toList
  return ⟨← word? major, ← word? minor, patch.bind word?⟩

/-- The numbers with points between them. -/
def display (version : ToolVersion) : String :=
  match version.patch with
  | some patch => s!"{version.major}.{version.minor}.{patch}"
  | none => s!"{version.major}.{version.minor}"

/-- A missing patch number comes before every patch number. -/
def comparePatch : Option UInt32 → Option UInt32 → Ordering
  | none, none => .eq
  | none, some _ => .lt
  | some _, none => .gt
  | some a, some b => Ord.compare a b

/-- Major, then minor, then patch number. -/
def compare (a b : ToolVersion) : Ordering :=
  (Ord.compare a.major b.major).then
    ((Ord.compare a.minor b.minor).then (comparePatch a.patch b.patch))

/-- `a` does not come after `b`. -/
def le (a b : ToolVersion) : Bool :=
  (a.compare b).isLE

end ToolVersion

end TargetLint
