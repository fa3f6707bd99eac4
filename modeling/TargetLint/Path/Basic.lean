import TargetLint.Text.Pieces

/-!
# Paths

A path is kept as it was written.  What it denotes is read off its components:
repeated separators, a `.` that is not in front, and a separator at the end carry
no meaning.  Operations that cut a path (`parent?`, `dropBase?`) cut its text, so
what is left is spelled as before.
-/

namespace TargetLint

/-- A path as it was written, with `/` between its parts. -/
structure Path where
  text : String
deriving DecidableEq, Repr, Inhabited

namespace Path

/-- A part of a path: the `/` or the `.` at its start, a `..`, or the name of a file. -/
inductive Component where
  | root
  | here
  | up
  | name (text : String)
deriving DecidableEq, Repr

/-- How a path starts: with a `/`, with a `.` that stands alone, or with its first segment. -/
inductive Lead where
  | none
  | root
  | here
deriving DecidableEq, Repr

/-- The characters of a lead. -/
def Lead.chars : Lead → List Char
  | .none => []
  | .root => ['/']
  | .here => ['.']

/-- The component that a lead denotes, if any. -/
def Lead.components : Lead → List Component
  | .none => []
  | .root => [.root]
  | .here => [.here]

/-- The lead of a path text and what follows it. -/
def splitLead : List Char → Lead × List Char
  | '/' :: rest => (.root, rest)
  | ['.'] => (.here, [])
  | '.' :: '/' :: rest => (.here, '/' :: rest)
  | chars => (.none, chars)

/-- The component that a segment between separators denotes; empty segments and `.` denote none. -/
def segmentComponent? : List Char → Option Component
  | [] => .none
  | ['.'] => .none
  | ['.', '.'] => some .up
  | chars => some (.name (String.ofList chars))

/-- A segment without meaning. -/
def isIdle (segment : List Char) : Bool :=
  (segmentComponent? segment).isNone

/-- How the path starts. -/
def lead (path : Path) : Lead :=
  (splitLead path.text.toList).1

/-- The segments after the lead, idle ones included. -/
def segments (path : Path) : List (List Char) :=
  Text.pieces '/' (splitLead path.text.toList).2

/-- The components in order. -/
def components (path : Path) : List Component :=
  path.lead.components ++ path.segments.filterMap segmentComponent?

/-- Two paths are the same when they have the same components, however they are spelled. -/
def Same (p q : Path) : Prop :=
  p.components = q.components

instance (p q : Path) : Decidable (p.Same q) :=
  inferInstanceAs (Decidable (p.components = q.components))

@[simp] theorem Same.refl (p : Path) : p.Same p :=
  Eq.refl p.components

theorem Same.symm {p q : Path} (h : p.Same q) : q.Same p :=
  Eq.symm h

theorem Same.trans {p q r : Path} (hpq : p.Same q) (hqr : q.Same r) : p.Same r :=
  Eq.trans hpq hqr

/-- What is the same as a path is the same as any other spelling of it. -/
theorem Same.congr_right {p q : Path} (h : p.Same q) (r : Path) : r.Same p ↔ r.Same q :=
  ⟨fun hp => hp.trans h, fun hq => hq.trans h.symm⟩

/-- A path that starts with a separator. -/
def isAbsolute (path : Path) : Bool :=
  path.text.toList.head? = some '/'

/-- `base` is the path itself or one of its ancestors. -/
def startsWith (path base : Path) : Bool :=
  base.components.isPrefixOf path.components

/-- Whether a path lies under another depends on what the path is, not on how it is spelled. -/
theorem startsWith_congr
    (base : Path)
    {p q : Path}
    (h : p.Same q) :
    p.startsWith base = q.startsWith base := by
  rw [startsWith, startsWith, show p.components = q.components from h]

/-- Segments without the idle ones at the end. -/
def dropIdleEnd (segments : List (List Char)) : List (List Char) :=
  (segments.reverse.dropWhile isIdle).reverse

/-- Segments without their first `count` meaningful ones and the idle ones before each of them. -/
def dropMeaningful : Nat → List (List Char) → List (List Char)
  | 0, segments => segments
  | _ + 1, [] => []
  | count + 1, segment :: rest =>
      if isIdle segment then
        dropMeaningful (count + 1) rest
      else
        dropMeaningful count rest

/-- The path whose text is a lead followed by segments. -/
def ofSegments (lead : Lead) (segments : List (List Char)) : Path :=
  ⟨String.ofList (lead.chars ++ Text.joined '/' segments)⟩

/--
The paths that are left when components are taken off the end one by one, given the segments
from last to first.  Idle segments go together with the component before which they stand.
-/
def shortened (lead : Lead) : List (List Char) → List Path
  | [] => if lead = .here then [⟨""⟩] else []
  | segment :: before =>
      if isIdle segment then
        shortened lead before
      else
        ofSegments lead (before.dropWhile isIdle).reverse :: shortened lead before

/-- The path, its parent, the parent's parent and so on. -/
def ancestors (path : Path) : List Path :=
  path :: shortened path.lead path.segments.reverse

/-- The path without its last component; absent where the path is empty or the root. -/
def parent? (path : Path) : Option Path :=
  (shortened path.lead path.segments.reverse).head?

/-- What follows `base` in the path; absent where the path does not start with `base`. -/
def dropBase? (base path : Path) : Option Path :=
  if path.startsWith base then
    if base.components = [] then
      some (ofSegments path.lead (dropIdleEnd path.segments))
    else
      let count := base.components.length - path.lead.components.length
      some (ofSegments .none
        (dropIdleEnd ((dropMeaningful count path.segments).dropWhile isIdle)))
  else
    .none

/-- `other` seen from `base`: an absolute path stands for itself, a relative one is appended. -/
def join (base other : Path) : Path :=
  if other.isAbsolute then
    other
  else if base.text = "" || base.text.toList.getLast? = some '/' then
    ⟨base.text ++ other.text⟩
  else
    ⟨base.text ++ "/" ++ other.text⟩

/-- The last component, where it is a name. -/
def fileName? (path : Path) : Option String :=
  match path.components.getLast? with
  | some (.name text) => some text
  | _ => .none

/-- What follows the last dot of the file name; absent where no dot follows the first character. -/
def extension? (path : Path) : Option String := do
  let chars := (← path.fileName?).toList
  match chars.reverse.dropWhile (· ≠ '.') with
  | [] => .none
  | [_] => .none
  | _ :: _ => some (String.ofList (chars.reverse.takeWhile (· ≠ '.')).reverse)

end Path
end TargetLint
