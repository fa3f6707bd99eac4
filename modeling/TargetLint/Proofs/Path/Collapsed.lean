import TargetLint.Proofs.Path.Spelling
import Mathlib.Data.List.Induction

/-!
# Collapsed paths

Collapsing reads the components from the front and keeps a stack of what is left.  On
the stack are always names, on top of the root or on top of `..` repeated.  So an
absolute path leaves the names by which one has gone down in the end, and a relative
path a number of `..` before them.

What is left of some components does to every stack what the components do.  So it
makes no difference whether parts of a path are collapsed before they are put together.
-/

namespace TargetLint
namespace Path

/--
The names by which one has gone down, the last one first, after one more component.  A name goes
down further; a `..` goes back up by one, and nowhere from where there is no name left.
-/
def descend (names : List String) : Component → List String
  | .name text => text :: names
  | .up => names.tail
  | .root => names
  | .here => names

/-- The names by which a path goes down in the end, the last one first. -/
def descent (path : Path) : List String :=
  path.components.foldl descend []

theorem mem_descend
    {names : List String}
    {component : Component}
    {text : String}
    (h : text ∈ descend names component) :
    text ∈ names ∨ component = .name text := by
  cases component with
  | root => exact Or.inl h
  | here => exact Or.inl h
  | up => exact Or.inl (List.mem_of_mem_tail h)
  | name other =>
      rcases List.mem_cons.1 h with rfl | hnames
      · exact Or.inr rfl
      · exact Or.inl hnames

theorem mem_foldl_descend
    {names : List String}
    {components : List Component}
    {text : String}
    (h : text ∈ components.foldl descend names) :
    text ∈ names ∨ .name text ∈ components := by
  induction components generalizing names with
  | nil => exact Or.inl h
  | cons component later ih =>
      rcases ih h with hnext | hlater
      · rcases mem_descend hnext with hnames | rfl
        · exact Or.inl hnames
        · exact Or.inr List.mem_cons_self
      · exact Or.inr (List.mem_cons_of_mem _ hlater)

/-- A path goes down by its own names only. -/
theorem isSegment_of_mem_descent
    {path : Path}
    {text : String}
    (h : text ∈ path.descent) :
    (Component.name text).IsSegment := by
  have hname : .name text ∈ path.components := (mem_foldl_descend h).resolve_left (by simp)
  rcases List.mem_append.1 hname with hlead | hsegment
  · cases hpath : path.lead <;> simp [hpath, Lead.components] at hlead
  · exact isSegment_of_mem_pieces hsegment

/-- What a path goes down by, in the order of the path, can stand between separators. -/
theorem isSegment_of_mem_names
    {path : Path}
    {component : Component}
    (h : component ∈ path.descent.reverse.map .name) :
    component.IsSegment := by
  obtain ⟨text, htext, rfl⟩ := List.mem_map.1 h
  exact isSegment_of_mem_descent (List.mem_reverse.1 htext)

theorem isName_of_mem_map
    {names : List String}
    {component : Component}
    (h : component ∈ names.map .name) :
    component.IsName := by
  obtain ⟨text, -, rfl⟩ := List.mem_map.1 h
  exact ⟨text, rfl⟩

/--
What names can stand on: in an absolute path the root, and in a relative one `..` any number of
times.
-/
inductive IsFooting : Bool → List Component → Prop where
  | root : IsFooting true [.root]
  | ups (count : Nat) : IsFooting false (List.replicate count .up)

/-- Nothing is left to collapse: there are names on a footing, and nothing else. -/
inductive IsCollapsed : Bool → List Component → Prop where
  | standing
      {absolute : Bool}
      {footing names : List Component}
      (isFooting : IsFooting absolute footing)
      (isName : ∀ component ∈ names, component.IsName) :
      IsCollapsed absolute (footing ++ names)

theorem IsFooting.reverse_eq
    {absolute : Bool}
    {footing : List Component}
    (h : IsFooting absolute footing) :
    footing.reverse = footing := by
  cases h with
  | root => rfl
  | ups count => exact List.reverse_replicate

theorem IsFooting.foldl_collapseStep
    {absolute : Bool}
    {footing : List Component}
    (h : IsFooting absolute footing) :
    footing.foldl collapseStep [] = footing := by
  cases h with
  | root => rfl
  | ups count =>
      induction count with
      | zero => rfl
      | succ count ih =>
          rw [List.replicate_succ', List.foldl_concat, ih, ← List.replicate_succ']
          cases count <;> rfl

theorem foldl_collapseStep_of_isName
    {names : List Component}
    (h : ∀ component ∈ names, component.IsName)
    (done : List Component) :
    names.foldl collapseStep done = names.reverse ++ done := by
  induction names generalizing done with
  | nil => rfl
  | cons first others ih =>
      obtain ⟨⟨text, rfl⟩, hothers⟩ := List.forall_mem_cons.1 h
      rw [List.foldl_cons, ih hothers, List.reverse_cons, List.append_assoc]
      rfl

/-- Where there is nothing to collapse, nothing changes. -/
theorem IsCollapsed.collapseComponents_eq
    {absolute : Bool}
    {components : List Component}
    (h : IsCollapsed absolute components) :
    collapseComponents components = components := by
  obtain ⟨isFooting, isName⟩ := h
  rw [collapseComponents, List.foldl_append, isFooting.foldl_collapseStep,
    foldl_collapseStep_of_isName isName, List.reverse_append, List.reverse_reverse,
    isFooting.reverse_eq]

section

variable {absolute : Bool} {footing : List Component} (hfooting : IsFooting absolute footing)

include hfooting

/-- A step keeps names on a footing, and the names are those by which one goes down. -/
theorem exists_collapseStep
    (names : List String)
    {component : Component}
    (h : component ≠ .root) :
    ∃ next, IsFooting absolute next ∧
      collapseStep (names.map .name ++ footing) component =
        (descend names component).map .name ++ next := by
  cases component with
  | root => exact absurd rfl h
  | here => exact ⟨footing, hfooting, rfl⟩
  | name text => exact ⟨footing, hfooting, rfl⟩
  | up =>
      cases names with
      | cons last before => exact ⟨footing, hfooting, rfl⟩
      | nil =>
          cases hfooting with
          | root => exact ⟨[.root], .root, rfl⟩
          | ups count =>
              refine ⟨List.replicate (count + 1) .up, .ups (count + 1), ?_⟩
              cases count <;> rfl

theorem exists_foldl_collapseStep
    (names : List String)
    {components : List Component}
    (h : .root ∉ components) :
    ∃ next, IsFooting absolute next ∧
      components.foldl collapseStep (names.map .name ++ footing) =
        (components.foldl descend names).map .name ++ next := by
  induction components generalizing names footing with
  | nil => exact ⟨footing, hfooting, rfl⟩
  | cons component later ih =>
      rw [List.mem_cons, not_or] at h
      obtain ⟨between, hbetween, hstep⟩ := exists_collapseStep hfooting names (Ne.symm h.1)
      obtain ⟨next, hnext, hlater⟩ := ih hbetween (descend names component) h.2
      refine ⟨next, hnext, ?_⟩
      rw [List.foldl_cons, hstep, hlater, List.foldl_cons]

end

theorem exists_foldl_components (path : Path) :
    ∃ footing, IsFooting path.isAbsolute footing ∧
      path.components.foldl collapseStep [] = path.descent.map .name ++ footing := by
  cases h : path.isAbsolute with
  | true =>
      rw [descent, components_of_isAbsolute h]
      exact exists_foldl_collapseStep .root [] (root_not_mem_pieces _)
  | false =>
      have hroot : .root ∉ path.components := by
        rw [root_mem_components_iff, h]
        exact Bool.false_ne_true
      exact exists_foldl_collapseStep (.ups 0) [] hroot

/-- Collapsing a path leaves the names by which the path goes down, on a footing of its kind. -/
theorem exists_collapseComponents (path : Path) :
    ∃ footing, IsFooting path.isAbsolute footing ∧
      collapseComponents path.components = footing ++ path.descent.reverse.map .name := by
  obtain ⟨footing, hfooting, hstack⟩ := path.exists_foldl_components
  refine ⟨footing, hfooting, ?_⟩
  rw [collapseComponents, hstack, List.reverse_append, hfooting.reverse_eq, List.map_reverse]

theorem isCollapsed_collapseComponents (path : Path) :
    IsCollapsed path.isAbsolute (collapseComponents path.components) := by
  obtain ⟨footing, hfooting, hcollapse⟩ := path.exists_collapseComponents
  rw [hcollapse]
  exact .standing hfooting fun _ => isName_of_mem_map

/-- Collapsing an absolute path leaves the root and the names by which the path goes down. -/
theorem collapseComponents_of_isAbsolute
    {path : Path}
    (h : path.isAbsolute = true) :
    collapseComponents path.components = .root :: path.descent.reverse.map .name := by
  obtain ⟨footing, hfooting, hcollapse⟩ := path.exists_collapseComponents
  rw [h] at hfooting
  cases hfooting with
  | root => exact hcollapse

theorem components_collapse_of_isAbsolute
    {path : Path}
    (h : path.isAbsolute = true) :
    path.collapse.components = collapseComponents path.components := by
  rw [collapse, collapseComponents_of_isAbsolute h]
  exact components_ofComponents_root fun _ => isSegment_of_mem_names

/-- The collapsed path denotes what collapsing its components leaves. -/
theorem components_collapse (path : Path) :
    path.collapse.components = collapseComponents path.components := by
  cases h : path.isAbsolute with
  | true => exact components_collapse_of_isAbsolute h
  | false =>
      obtain ⟨footing, hfooting, hcollapse⟩ := path.exists_collapseComponents
      rw [h] at hfooting
      rw [collapse, hcollapse]
      refine components_ofComponents ?_
      intro component hcomponent
      rcases List.mem_append.1 hcomponent with hup | hname
      · cases hfooting with
        | ups count =>
            rw [List.eq_of_mem_replicate hup]
            exact ⟨rfl, by decide⟩
      · exact isSegment_of_mem_names hname

theorem exists_components_collapse
    {path : Path}
    (h : path.isAbsolute = true) :
    ∃ names, path.collapse.components = .root :: names ∧
      ∀ component ∈ names, component.IsName := by
  refine ⟨path.descent.reverse.map .name, ?_, fun _ => isName_of_mem_map⟩
  rw [components_collapse, collapseComponents_of_isAbsolute h]

/-- Components in normal form tell whether they are those of an absolute path. -/
theorem IsCollapsed.isAbsolute_eq
    {absolute : Bool}
    {path : Path}
    (h : IsCollapsed absolute path.components) :
    path.isAbsolute = absolute := by
  generalize hcomponents : path.components = components at h
  obtain ⟨isFooting, isName⟩ := h
  cases isFooting with
  | root => exact isAbsolute_of_components hcomponents
  | ups count =>
      rw [← Bool.not_eq_true, ← root_mem_components_iff, hcomponents]
      intro hroot
      rcases List.mem_append.1 hroot with hup | hname
      · cases List.eq_of_mem_replicate hup
      · obtain ⟨text, htext⟩ := isName .root hname
        cases htext

theorem isCollapsed_collapse (path : Path) :
    IsCollapsed path.isAbsolute path.collapse.components := by
  rw [components_collapse]
  exact isCollapsed_collapseComponents path

theorem isAbsolute_collapse (path : Path) : path.collapse.isAbsolute = path.isAbsolute :=
  (isCollapsed_collapse path).isAbsolute_eq

/-- Exactly the paths in normal form stay the same. -/
theorem collapse_same_iff
    {path : Path} :
    path.collapse.Same path ↔ IsCollapsed path.isAbsolute path.components := by
  constructor
  · intro hsame
    rw [← show path.collapse.components = path.components from hsame]
    exact isCollapsed_collapse path
  · intro hcollapsed
    rw [Same, components_collapse, hcollapsed.collapseComponents_eq]

/-- Collapsed paths that are the same are spelled alike. -/
theorem collapse_eq_of_same
    {p q : Path}
    (hp : p.isAbsolute = true)
    (hq : q.isAbsolute = true)
    (h : p.collapse.Same q.collapse) :
    p.collapse = q.collapse := by
  rw [Same, components_collapse_of_isAbsolute hp, components_collapse_of_isAbsolute hq] at h
  rw [collapse, collapse, h]

/-- A step on one stack does the same when the stack stands on another. -/
theorem foldl_reverse_collapseStep
    (done stack : List Component)
    (component : Component) :
    (collapseStep stack component).reverse.foldl collapseStep done =
      collapseStep (stack.reverse.foldl collapseStep done) component := by
  cases component with
  | root => simp [collapseStep]
  | here => rfl
  | name text => simp [collapseStep]
  | up =>
      cases stack with
      | nil => rfl
      | cons top below => cases top <;> simp [collapseStep]

/-- What is left of some components does to a stack what the components do. -/
theorem foldl_collapseComponents
    (done components : List Component) :
    (collapseComponents components).foldl collapseStep done =
      components.foldl collapseStep done := by
  induction components using List.reverseRecOn with
  | nil => rfl
  | append_singleton before last ih =>
      rw [collapseComponents, List.foldl_concat, foldl_reverse_collapseStep, ← collapseComponents,
        ih, List.foldl_concat]

theorem collapseComponents_append_left
    (first second : List Component) :
    collapseComponents (collapseComponents first ++ second) =
      collapseComponents (first ++ second) := by
  rw [collapseComponents, List.foldl_append, foldl_collapseComponents, ← List.foldl_append]
  rfl

theorem collapseComponents_append_right
    (first second : List Component) :
    collapseComponents (first ++ collapseComponents second) =
      collapseComponents (first ++ second) := by
  rw [collapseComponents, List.foldl_append, foldl_collapseComponents, ← List.foldl_append]
  rfl

/-- A `.` that a joined path starts with is lost when it is joined, and when it is collapsed. -/
theorem collapseComponents_join
    (base : Path)
    {other : Path}
    (h : other.isAbsolute = false) :
    collapseComponents (base.join other).components =
      collapseComponents (base.components ++ other.components) := by
  by_cases hbase : base.text = ""
  · rw [join_of_empty hbase, components_eq base, hbase]
    rfl
  · rw [components_join_of_relative hbase h, components_of_relative h]
    cases hlead : other.lead with
    | none => rfl
    | here => simp [collapseComponents, Lead.components, collapseStep]
    | root =>
        rw [lead_eq_root_iff, h] at hlead
        cases hlead

/--
Collapsing any path.  What is left is in normal form, exactly the paths in normal form stay the
same, and collapsing once more changes nothing.  What is left of an absolute path is absolute, and
of a relative one relative.  Where a relative path is joined to another, it makes no difference if
one of the two is collapsed before.  An absolute path leaves the root and the names by which it goes
down, when a `..` goes back up by one name and nowhere from the root.
-/
theorem collapse_leaves_normal_form
    (path : Path) :
    IsCollapsed path.isAbsolute path.collapse.components ∧
    (path.collapse.Same path ↔ IsCollapsed path.isAbsolute path.components) ∧
    path.collapse.collapse = path.collapse ∧
    path.collapse.isAbsolute = path.isAbsolute ∧
    (∀ other : Path, other.isAbsolute = false →
      (path.collapse.join other).collapse = (path.join other).collapse ∧
      (path.join other.collapse).collapse = (path.join other).collapse) ∧
    (path.isAbsolute = true →
      path.collapse.components = .root :: path.descent.reverse.map .name) := by
  refine ⟨isCollapsed_collapse path, collapse_same_iff, ?_, isAbsolute_collapse path, ?_, ?_⟩
  · rw [collapse, (isCollapsed_collapse path).collapseComponents_eq, components_collapse,
      ← collapse]
  · intro other hother
    have hcollapsed : other.collapse.isAbsolute = false := (isAbsolute_collapse other).trans hother
    constructor
    · rw [collapse, collapseComponents_join _ hother, components_collapse,
        collapseComponents_append_left, ← collapseComponents_join path hother, ← collapse]
    · rw [collapse, collapseComponents_join _ hcollapsed, components_collapse,
        collapseComponents_append_right, ← collapseComponents_join path hother, ← collapse]
  · intro habsolute
    rw [components_collapse, collapseComponents_of_isAbsolute habsolute]

/-- A path that goes back beyond the root on its way, and ends in a separator. -/
def windingPath : Path :=
  ⟨"/work/./x//../../../lib/"⟩

theorem collapse_leaves_normal_form_of_windingPath :
    windingPath.isAbsolute = true ∧
      (Path.mk "./src/../../app").isAbsolute = false ∧
      (windingPath.collapse.join ⟨"./src/../../app"⟩).collapse =
        (windingPath.join ⟨"./src/../../app"⟩).collapse ∧
      windingPath.collapse.components = [.root, .name "lib"] := by
  have habsolute : windingPath.isAbsolute = true := by decide
  have hrelative : (Path.mk "./src/../../app").isAbsolute = false := by decide
  have hdescent : windingPath.descent = ["lib"] := by decide
  obtain ⟨-, -, -, -, hjoin, hleft⟩ := collapse_leaves_normal_form windingPath
  refine ⟨habsolute, hrelative, (hjoin _ hrelative).1, ?_⟩
  rw [hleft habsolute, hdescent]
  rfl

/-- A relative path keeps a `..` that no name comes before. -/
example : (Path.mk "../a/..").collapse = ⟨".."⟩ := by
  decide

end Path
end TargetLint
