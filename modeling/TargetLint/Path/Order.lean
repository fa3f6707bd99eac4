import TargetLint.Path.Basic

/-!
# The order of paths

Paths are ordered by their components, the first difference deciding.  Kinds of
components are ordered root, `.`, `..`, name; names by their characters.
-/

namespace TargetLint
namespace Path

/-- The place of a component's kind in the order. -/
def Component.rank : Component → Nat
  | .root => 0
  | .here => 1
  | .up => 2
  | .name _ => 3

/-- The characters that order two components of one kind. -/
def Component.label : Component → String
  | .name text => text
  | _ => ""

/-- Kinds first, then names. -/
def Component.compare (a b : Component) : Ordering :=
  (Ord.compare a.rank b.rank).then (Ord.compare a.label b.label)

/-- The order of paths: component by component. -/
def compare (p q : Path) : Ordering :=
  List.compareLex Component.compare p.components q.components

/-- `p` does not come after `q`. -/
def le (p q : Path) : Bool :=
  (p.compare q).isLE

end Path
end TargetLint
