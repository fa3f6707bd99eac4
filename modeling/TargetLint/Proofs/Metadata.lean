import TargetLint.Metadata
import TargetLint.Proofs.History
import Mathlib.Data.List.Nodup

/-!
# The package of a project

A metadata document may list all packages of a workspace.  The targets of a project are those of
one of them: the first with the project's manifest, or the only one there is.  Its targets are
listed tag by tag.  Where no two packages have the same manifest, neither the order of the packages
nor what the other ones hold has a part in this.
-/

namespace TargetLint
namespace Metadata

/-- The text is written for the document. -/
def IsText (text : String) (document : Document) : Prop :=
  (Json.read? text).bind Document.ofJson? = some document

instance (text : String) (document : Document) : Decidable (IsText text document) :=
  inferInstanceAs (Decidable (_ = _))

namespace Document

variable {document other : Document} {manifest : Path} {package : Package}

/-- The package whose targets are those of the project with the manifest. -/
inductive Selects (document : Document) (manifest : Path) : Package → Prop
  | named
      {package : Package}
      (hfirst : IsFirst (fun package => package.manifest.Same manifest) document.packages package) :
      Selects document manifest package
  | sole
      {package : Package}
      (hsole : document.packages = [package]) :
      Selects document manifest package

theorem package?_eq_some_iff :
    document.package? manifest = some package ↔ document.Selects manifest package := by
  unfold package?
  split
  case h_1 only honly =>
    constructor
    · intro h
      obtain rfl := Option.some.inj h
      exact .sole honly
    · intro h
      have hmem : package ∈ document.packages := by
        cases h with
        | named hfirst => exact hfirst.mem
        | sole hsole =>
            rw [hsole]
            exact List.mem_singleton_self _
      rw [honly, List.mem_singleton] at hmem
      rw [hmem]
  case h_2 hseveral =>
    rw [find?_eq_some_iff_isFirst]
    constructor
    · exact Selects.named
    · intro h
      cases h with
      | named hfirst => exact hfirst
      | sole hsole => exact absurd hsole (hseveral package)

theorem package?_eq_none_iff :
    document.package? manifest = none ↔ ∀ package, ¬ document.Selects manifest package := by
  rw [Option.eq_none_iff_forall_ne_some]
  exact forall_congr' fun package => not_congr package?_eq_some_iff

theorem Selects.unique
    {another : Package}
    (h : document.Selects manifest package)
    (hanother : document.Selects manifest another) :
    package = another := by
  rw [← package?_eq_some_iff] at h hanother
  exact Option.some.inj (h.symm.trans hanother)

theorem exists_selects_of_mem
    (hmem : package ∈ document.packages)
    (hmanifest : package.manifest.Same manifest) :
    ∃ selected, document.Selects manifest selected := by
  rcases exists_isFirst_or_forall_not (fun package : Package => package.manifest.Same manifest)
    document.packages with ⟨selected, hfirst⟩ | hnone
  · exact ⟨selected, .named hfirst⟩
  · exact absurd hmanifest (hnone package hmem)

/-- The manifests of the packages, whatever their spelling. -/
def manifests (document : Document) : List (List Path.Component) :=
  document.packages.map fun package => package.manifest.components

/-- The other document has the same manifests in some order, and the package that this one selects
as it is; the other packages may hold anything. -/
structure Reworks (document other : Document) (manifest : Path) : Prop where
  manifests : document.manifests.Perm other.manifests
  keeps : ∀ package, document.Selects manifest package → package ∈ other.packages

theorem Reworks.length_eq
    (h : document.Reworks other manifest) :
    document.packages.length = other.packages.length := by
  have hlength := h.manifests.length_eq
  rwa [Document.manifests, Document.manifests, List.length_map, List.length_map] at hlength

/-- A package with a manifest of its own is the first with it. -/
theorem selects_of_mem_of_nodup
    (hdistinct : document.manifests.Nodup)
    (hmem : package ∈ document.packages)
    (hmanifest : package.manifest.Same manifest) :
    document.Selects manifest package := by
  rcases exists_isFirst_or_forall_not (fun package : Package => package.manifest.Same manifest)
    document.packages with ⟨first, hfirst⟩ | hnone
  · have hsame : first.manifest.components = package.manifest.components :=
      hfirst.holds.trans hmanifest.symm
    rw [← List.inj_on_of_nodup_map hdistinct hfirst.mem hmem hsame]
    exact .named hfirst
  · exact absurd hmanifest (hnone package hmem)

theorem Reworks.selects
    (h : document.Reworks other manifest)
    (hdistinct : document.manifests.Nodup)
    (hselects : document.Selects manifest package) :
    other.Selects manifest package := by
  have hmem := h.keeps package hselects
  cases hselects with
  | named hfirst =>
      exact selects_of_mem_of_nodup (h.manifests.nodup_iff.1 hdistinct) hmem hfirst.holds
  | sole hsole =>
      have hlength := h.length_eq
      rw [hsole, List.length_singleton] at hlength
      obtain ⟨only, honly⟩ := List.length_eq_one_iff.1 hlength.symm
      rw [honly, List.mem_singleton] at hmem
      rw [hmem]
      exact .sole honly

theorem Reworks.exists_selects
    (h : document.Reworks other manifest)
    (hselects : other.Selects manifest package) :
    ∃ selected, document.Selects manifest selected := by
  cases hselects with
  | named hfirst =>
      have hkey : package.manifest.components ∈ other.manifests := List.mem_map_of_mem hfirst.mem
      rw [← h.manifests.mem_iff, Document.manifests, List.mem_map] at hkey
      obtain ⟨twin, htwin, hsame⟩ := hkey
      exact exists_selects_of_mem htwin (hsame.trans hfirst.holds)
  | sole hsole =>
      have hlength := h.length_eq
      rw [hsole, List.length_singleton] at hlength
      obtain ⟨only, honly⟩ := List.length_eq_one_iff.1 hlength
      exact ⟨only, .sole honly⟩

/-- Where manifests are distinct, a rework selects the same package, or none either. -/
theorem Reworks.package?_eq
    (h : document.Reworks other manifest)
    (hdistinct : document.manifests.Nodup) :
    other.package? manifest = document.package? manifest := by
  cases hpackage : document.package? manifest with
  | some package =>
      exact package?_eq_some_iff.2 (h.selects hdistinct (package?_eq_some_iff.1 hpackage))
  | none =>
      rw [package?_eq_none_iff] at hpackage ⊢
      intro package hselects
      obtain ⟨selected, hselected⟩ := h.exists_selects hselects
      exact hpackage selected hselected

end Document

/-- Targets and their descriptors, one tag after another. -/
inductive Lists : List BuildUnit → List Descriptor → Prop
  | done : Lists [] []
  | next
      {name : String}
      {entry : Path}
      {units : List BuildUnit}
      {descriptors : List Descriptor}
      (hlater : Lists units descriptors) :
      Lists (⟨name, [], entry⟩ :: units) descriptors
  | tag
      {name kind : String}
      {kinds : List String}
      {entry : Path}
      {units : List BuildUnit}
      {descriptors : List Descriptor}
      (hlater : Lists (⟨name, kinds, entry⟩ :: units) descriptors) :
      Lists (⟨name, kind :: kinds, entry⟩ :: units) (⟨name, kind, entry⟩ :: descriptors)

theorem lists_descriptors (units : List BuildUnit) :
    Lists units (units.flatMap BuildUnit.descriptors) := by
  induction units with
  | nil => exact .done
  | cons first units ih =>
      obtain ⟨name, kinds, entry⟩ := first
      induction kinds with
      | nil => exact .next ih
      | cons kind kinds ihkinds => exact .tag ihkinds

theorem Lists.eq_descriptors
    {units : List BuildUnit}
    {descriptors : List Descriptor}
    (h : Lists units descriptors) :
    descriptors = units.flatMap BuildUnit.descriptors := by
  induction h with
  | done => rfl
  | next _ ih => exact ih
  | tag _ ih => exact congrArg _ ih

theorem lists_iff
    {units : List BuildUnit}
    {descriptors : List Descriptor} :
    Lists units descriptors ↔ units.flatMap BuildUnit.descriptors = descriptors :=
  ⟨fun h => h.eq_descriptors.symm, fun h => h ▸ lists_descriptors units⟩

theorem decode_of_isText
    {text : String}
    {document : Document}
    (h : IsText text document)
    (manifest : Path) :
    decode text manifest = document.descriptors manifest := by
  rw [decode, show (Json.read? text).bind Document.ofJson? = some document from h]

/--
What a document lists for the project with a manifest.  It selects at most one package, the first
with this manifest or the only one.  The listing succeeds exactly if it selects one, with the
targets of that package tag by tag, and otherwise tells that no package has the manifest.  Where no
two packages have the same manifest, the listing is the same for every document with these manifests
in any order that keeps the selected package.
-/
theorem listing_of_selected_package
    {text : String}
    {document : Document}
    (htext : IsText text document)
    (manifest : Path) :
    (∀ package another, document.Selects manifest package → document.Selects manifest another →
        package = another) ∧
      (∀ descriptors, decode text manifest = .ok descriptors ↔
        ∃ package, document.Selects manifest package ∧ Lists package.targets descriptors) ∧
      (∀ failure, decode text manifest = .error failure ↔
        failure = .noPackage manifest ∧ ∀ package, ¬ document.Selects manifest package) ∧
      (document.manifests.Nodup → ∀ otherText other, IsText otherText other →
        document.Reworks other manifest → decode otherText manifest = decode text manifest) := by
  rw [decode_of_isText htext, Document.descriptors]
  refine ⟨fun _ _ => Document.Selects.unique, ?_, ?_, ?_⟩
  · intro descriptors
    simp only [← Document.package?_eq_some_iff, lists_iff]
    cases document.package? manifest with
    | some package => simp
    | none => simp
  · intro failure
    rw [← Document.package?_eq_none_iff]
    cases document.package? manifest with
    | some package => simp
    | none => simp [eq_comm]
  · intro hdistinct otherText other hother hreworks
    rw [decode_of_isText hother, Document.descriptors, hreworks.package?_eq hdistinct]

/-- A document with two packages, as it is written and as it is read. -/
def twoPackages (first second : String × Package) : String × Document :=
  (s!"[[{first.1},{second.1}]]", ⟨[first.2, second.2]⟩)

/-- A package with a library of two crate types and a target without tags. -/
def appPackage : String × Package :=
  ("[\"/./a/Cargo.toml\",[[\"a\",[\"rlib\",\"cdylib\"],\"lib.rs\"],[\"a\",[],\"b.rs\"]]]",
    ⟨⟨"/./a/Cargo.toml"⟩, [⟨"a", ["rlib", "cdylib"], ⟨"lib.rs"⟩⟩, ⟨"a", [], ⟨"b.rs"⟩⟩]⟩)

/-- The neighbour may get a target, be spelled otherwise and move to the other side. -/
theorem listing_of_selected_package_of_twoPackages :
    let workspace := twoPackages ("[\"/b/Cargo.toml\",[]]", ⟨⟨"/b/Cargo.toml"⟩, []⟩) appPackage
    let reworked := twoPackages appPackage
      ("[\"/b//Cargo.toml\",[[\"b\",[\"lib\"],\"b.rs\"]]]",
        ⟨⟨"/b//Cargo.toml"⟩, [⟨"b", ["lib"], ⟨"b.rs"⟩⟩]⟩)
    decode workspace.1 ⟨"/a/Cargo.toml"⟩ =
        .ok [⟨"a", "rlib", ⟨"lib.rs"⟩⟩, ⟨"a", "cdylib", ⟨"lib.rs"⟩⟩] ∧
      decode reworked.1 ⟨"/a/Cargo.toml"⟩ = decode workspace.1 ⟨"/a/Cargo.toml"⟩ ∧
      decode workspace.1 ⟨"/c/Cargo.toml"⟩ = .error (.noPackage ⟨"/c/Cargo.toml"⟩) := by
  intro workspace reworked
  have hworkspace : IsText workspace.1 workspace.2 := by decide +kernel
  have hreworked : IsText reworked.1 reworked.2 := by decide +kernel
  have hselects : workspace.2.Selects ⟨"/a/Cargo.toml"⟩ appPackage.2 :=
    Document.package?_eq_some_iff.1 (by decide)
  have hnone : ∀ package, ¬ workspace.2.Selects ⟨"/c/Cargo.toml"⟩ package :=
    Document.package?_eq_none_iff.1 (by decide)
  obtain ⟨hunique, hlisted, -, hsame⟩ := listing_of_selected_package hworkspace ⟨"/a/Cargo.toml"⟩
  have hreworks : workspace.2.Reworks reworked.2 ⟨"/a/Cargo.toml"⟩ := by
    refine ⟨by decide, ?_⟩
    intro package hpackage
    rw [hunique package appPackage.2 hpackage hselects]
    exact List.mem_cons_self ..
  refine ⟨?_, hsame (by decide) reworked.1 reworked.2 hreworked hreworks, ?_⟩
  · exact (hlisted _).2 ⟨appPackage.2, hselects, .tag (.tag (.next (.next .done)))⟩
  · have hfails := (listing_of_selected_package hworkspace ⟨"/c/Cargo.toml"⟩).2.2.1
    exact (hfails _).2 ⟨rfl, hnone⟩

end Metadata
end TargetLint
