import TargetLint.Path.Collapse

/-!
# Anchoring a path at a directory

A relative path is anchored at the working directory.  `.` and repeated separators
go, `..` stays because what it means may depend on links.  Two rules keep what a
separator can mean: exactly two of them in front stay two, and one at the end stays.
-/

namespace TargetLint
namespace Path

/-- Append components one by one. -/
def extend (base : Path) (components : List Component) : Path :=
  components.foldl (fun path component => path.join (ofComponents [component])) base

/-- The path starts with two separators and no third. -/
def hasDoubleRoot (path : Path) : Bool :=
  match path.text.toList with
  | '/' :: '/' :: '/' :: _ => false
  | '/' :: '/' :: _ => true
  | _ => false

/-- The path anchored at `directory`; an empty path cannot be anchored. -/
def anchored? (directory path : Path) : Option Path :=
  if path.text = "" then
    none
  else
    let components := path.components.filter (· ≠ .here)
    let body :=
      if path.isAbsolute then
        if path.hasDoubleRoot then
          extend ⟨"//"⟩ (components.drop 1)
        else
          extend ⟨""⟩ components
      else
        extend directory components
    some (if path.text.toList.getLast? = some '/' then body.join ⟨""⟩ else body)

end Path
end TargetLint
