import TargetLint.Path.Basic

/-!
# Collapsing dots

`Path.collapse` removes `.` and lets a `..` cancel the name before it, without
asking the file system.  A `..` at the root goes nowhere; in front of a relative
path it stays.
-/

namespace TargetLint
namespace Path

/-- The components collapsed so far, last first, after one more component. -/
def collapseStep (done : List Component) (component : Component) : List Component :=
  match component with
  | .here => done
  | .up =>
      match done with
      | .name _ :: before => before
      | .root :: _ => done
      | _ => .up :: done
  | other => other :: done

/-- Components without `.` and without a `..` that a name or the root can absorb. -/
def collapseComponents (components : List Component) : List Component :=
  (components.foldl collapseStep []).reverse

/-- The characters of a component between separators. -/
def Component.chars : Component → List Char
  | .root => []
  | .here => ['.']
  | .up => ['.', '.']
  | .name text => text.toList

/-- The plainest spelling of a list of components. -/
def ofComponents (components : List Component) : Path :=
  match components with
  | [.root] => ⟨"/"⟩
  | _ => ⟨String.ofList (Text.joined '/' (components.map Component.chars))⟩

/-- The path with `.` and `..` worked off, spelled plainly. -/
def collapse (path : Path) : Path :=
  ofComponents (collapseComponents path.components)

end Path
end TargetLint
