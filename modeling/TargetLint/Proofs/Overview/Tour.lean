import TargetLint.Proofs.History
import TargetLint.Proofs.Overview.Agreement
import Mathlib.Data.List.Rotate

/-!
# The way around a project

A tour answers with the places of its overview from the first to the last and then from the
first again.  The places are those of the errors and then those of the warnings, each by file
and position.  In this order the first place of a file is the one that its problem file names as
the earliest, although that is found without sorting.
-/

namespace TargetLint

namespace Tour

/-- The tour after some visits. -/
def afterVisits (tour : Tour) : Nat → Tour
  | 0 => tour
  | count + 1 => tour.visit.2.afterVisits count

@[simp] theorem waypoints_visit (tour : Tour) :
    tour.visit.2.waypoints = tour.waypoints := by
  rw [visit]
  split <;> rfl

@[simp] theorem waypoints_afterVisits
    (tour : Tour)
    (count : Nat) :
    (tour.afterVisits count).waypoints = tour.waypoints := by
  induction count generalizing tour with
  | zero => rfl
  | succ count ih => rw [afterVisits, ih, waypoints_visit]

/-- The number of the next place only counts up to whole rounds. -/
theorem visit_fst (tour : Tour) :
    tour.visit.1 = tour.waypoints[tour.next % tour.waypoints.length]? := by
  rw [visit]
  split
  · rename_i hempty
    simp [hempty]
  · rfl

/-- A visit moves the tour on by one place. -/
theorem getElem?_visit
    (tour : Tour)
    (i : Nat) :
    tour.waypoints[(tour.visit.2.next + i) % tour.waypoints.length]? =
      tour.waypoints[(tour.next + (i + 1)) % tour.waypoints.length]? := by
  by_cases hempty : tour.waypoints = []
  · simp [hempty]
  · have hnext : tour.visit.2.next = tour.next % tour.waypoints.length + 1 := by
      rw [visit, if_neg hempty]
    rw [hnext, Nat.add_assoc, Nat.mod_add_mod, Nat.add_comm 1 i]

/-- Visits answer with the places one after the other, around and around. -/
theorem visits_eq
    (tour : Tour)
    (count : Nat) :
    tour.visits count =
      (List.range count).map fun i =>
        tour.waypoints[(tour.next + i) % tour.waypoints.length]? := by
  induction count generalizing tour with
  | zero => rfl
  | succ count ih =>
      rw [visits, ih, visit_fst, List.range_succ_eq_map, List.map_cons, List.map_map]
      refine congrArg (List.cons _) (List.map_congr_left ?_)
      intro i _
      rw [waypoints_visit]
      exact tour.getElem?_visit i

/-- As many visits as there are places go once around, wherever they start. -/
theorem perm_visits_length (tour : Tour) :
    (tour.visits tour.length).Perm (tour.waypoints.map some) := by
  have hround : tour.visits tour.length = (tour.waypoints.rotate tour.next).map some := by
    rw [visits_eq]
    refine List.ext_getElem (by simp [length]) ?_
    intro i hleft hright
    have hi : i < tour.waypoints.length := by simpa using hright
    have hmod : (i + tour.next) % tour.waypoints.length < tour.waypoints.length :=
      Nat.mod_lt _ (by omega)
    rw [List.getElem_map, List.getElem_map, List.getElem_range, List.getElem_rotate,
      Nat.add_comm tour.next i, List.getElem?_eq_getElem hmod]
  rw [hround]
  exact (List.rotate_perm tour.waypoints tour.next).map some

/-- There is an answer at every point of a tour, unless it has no places at all. -/
theorem visit_eq_none_iff
    (tour : Tour) :
    tour.visit.1 = none ↔ tour.waypoints = [] := by
  rw [visit_fst, List.getElem?_eq_none_iff]
  constructor
  · intro hle
    by_contra hne
    have hpos := List.length_pos_iff.2 hne
    exact absurd (Nat.mod_lt tour.next hpos) (Nat.not_lt.2 hle)
  · intro hempty
    simp [hempty]

/-- From the start, the first visits go to the first places. -/
theorem visits_of_waypoints_eq
    {tour : Tour}
    {before after : List Waypoint}
    {place : Waypoint}
    (hnext : tour.next = 0)
    (h : tour.waypoints = before ++ place :: after) :
    tour.visits (before.length + 1) = before.map some ++ [some place] := by
  have hlength : before.length < tour.waypoints.length := by
    rw [h, List.length_append, List.length_cons]
    omega
  rw [visits_eq, hnext]
  refine List.ext_getElem (by simp) ?_
  intro i hleft hright
  have hi : i ≤ before.length := by
    rw [List.length_map, List.length_range] at hleft
    omega
  rw [List.getElem_map, List.getElem_range, Nat.zero_add, Nat.mod_eq_of_lt (by omega), h]
  rcases Nat.lt_or_eq_of_le hi with hlt | rfl
  · rw [List.getElem?_append_left hlt, List.getElem?_eq_getElem hlt,
      List.getElem_append_left (by simpa using hlt), List.getElem_map]
  · simp

end Tour

namespace Region

theorem le_refl (region : Region) : region.le region = true := by
  have hself : region.compare region = .eq := Std.ReflCmp.compare_self
  rw [le, hself]
  rfl

theorem le_trans
    {a b c : Region}
    (hab : a.le b = true)
    (hbc : b.le c = true) :
    a.le c = true :=
  Std.TransCmp.isLE_trans hab hbc

theorem eq_of_le_of_le
    {a b : Region}
    (hab : a.le b = true)
    (hba : b.le a = true) :
    a = b :=
  eq_of_compare (Std.OrientedCmp.isLE_antisymm hab hba)

theorem earlier_le_left (a b : Region) : (a.earlier b).le a = true := by
  rw [earlier]
  split
  · exact le_refl a
  · rename_i hle
    have hswap : b.compare a = (a.compare b).swap := Std.OrientedCmp.eq_swap
    rw [le] at hle ⊢
    rw [hswap]
    revert hle
    cases a.compare b <;> simp

theorem earlier_le_right (a b : Region) : (a.earlier b).le b = true := by
  rw [earlier]
  split
  · rename_i hle
    exact hle
  · exact le_refl b

end Region

namespace ProblemFile

variable {severity : Severity} {diagnostics before : List Diagnostic} {last : Diagnostic}
  {region : Region}

/-- A diagnostic of the severity has the region, and none of them has one that comes before. -/
structure IsEarliest
    (severity : Severity)
    (diagnostics : List Diagnostic)
    (region : Region) : Prop where
  reached : ∃ diagnostic ∈ diagnostics, diagnostic.severity = severity ∧ diagnostic.region = region
  least : ∀ diagnostic ∈ diagnostics,
    diagnostic.severity = severity → region.le diagnostic.region = true

theorem earliest?_snoc :
    earliest? severity (before ++ [last]) =
      if last.severity = severity then
        some ((earliest? severity before).elim last.region (·.earlier last.region))
      else
        earliest? severity before := by
  simp [earliest?]

theorem IsEarliest.snoc
    (h : IsEarliest severity before region)
    (hlast : last.severity = severity) :
    IsEarliest severity (before ++ [last]) (region.earlier last.region) := by
  obtain ⟨found, hfound, hkind, hregion⟩ := h.reached
  constructor
  · by_cases hle : region.le last.region = true
    · refine ⟨found, List.mem_append_left _ hfound, hkind, ?_⟩
      rw [Region.earlier, if_pos hle, hregion]
    · refine ⟨last, by simp, hlast, ?_⟩
      rw [Region.earlier, if_neg hle]
  · intro diagnostic hmem hseverity
    rcases List.mem_append.1 hmem with hold | hnew
    · exact Region.le_trans (region.earlier_le_left last.region) (h.least diagnostic hold hseverity)
    · rw [List.mem_singleton.1 hnew]
      exact region.earlier_le_right last.region

theorem IsEarliest.snoc_of_ne
    (h : IsEarliest severity before region)
    (hlast : last.severity ≠ severity) :
    IsEarliest severity (before ++ [last]) region := by
  obtain ⟨found, hfound, hkind⟩ := h.reached
  refine ⟨⟨found, List.mem_append_left _ hfound, hkind⟩, ?_⟩
  intro diagnostic hmem hseverity
  rcases List.mem_append.1 hmem with hold | hnew
  · exact h.least diagnostic hold hseverity
  · rw [List.mem_singleton.1 hnew] at hseverity
    exact absurd hseverity hlast

/-- The first diagnostic of a severity is the earliest of those before it. -/
theorem isEarliest_snoc_of_none
    (h : earliest? severity before = none)
    (hlast : last.severity = severity) :
    IsEarliest severity (before ++ [last]) last.region := by
  refine ⟨⟨last, by simp, hlast, rfl⟩, ?_⟩
  intro diagnostic hmem hseverity
  rcases List.mem_append.1 hmem with hold | hnew
  · have hnone := List.countP_eq_zero.1 (earliest?_eq_none_iff.1 h)
    exact absurd (decide_eq_true hseverity) (hnone diagnostic hold)
  · rw [List.mem_singleton.1 hnew]
    exact last.region.le_refl

/-- What is found in one pass over the diagnostics is their earliest region. -/
theorem isEarliest_of_earliest?
    (h : earliest? severity diagnostics = some region) :
    IsEarliest severity diagnostics region := by
  induction diagnostics using List.reverseRecOn generalizing region with
  | nil => cases h
  | append_singleton before last ih =>
      rw [earliest?_snoc] at h
      by_cases hlast : last.severity = severity
      · rw [if_pos hlast, Option.some.injEq] at h
        cases hbefore : earliest? severity before with
        | none =>
            rw [hbefore] at h
            exact h ▸ isEarliest_snoc_of_none hbefore hlast
        | some found =>
            rw [hbefore] at h
            exact h ▸ (ih hbefore).snoc hlast
      · rw [if_neg hlast] at h
        exact (ih h).snoc_of_ne hlast

end ProblemFile

namespace Waypoint

variable {view : DiagnosticView} {files : List (Path × List Diagnostic)}
  {file : Path × List Diagnostic} {severity : Severity}

/-- The places are those of diagnostics of the severity. -/
theorem mem_ofFiles_iff
    {place : Waypoint} :
    place ∈ ofFiles severity files ↔
      ∃ file ∈ files, ∃ diagnostic ∈ file.2,
        diagnostic.severity = severity ∧ ⟨file.1, diagnostic.region⟩ = place := by
  rw [ofFiles, List.mem_mergeSort, List.mem_flatMap]
  simp only [ofFile, List.mem_map, List.mem_filter, decide_eq_true_eq, and_assoc]

/-- A place on one file of a view is that of a diagnostic which the view has for the file. -/
theorem exists_of_mem_ofFiles
    (hfiles : ∀ file ∈ files, file ∈ view.files)
    (hfile : file ∈ files)
    {place : Waypoint}
    (hplace : place ∈ ofFiles severity files)
    (hsame : place.path.Same file.1) :
    ∃ diagnostic ∈ file.2, diagnostic.severity = severity ∧ place.region = diagnostic.region := by
  obtain ⟨other, hother, diagnostic, hmem, hseverity, rfl⟩ := mem_ofFiles_iff.1 hplace
  obtain rfl := PathTable.entry_eq_of_same (hfiles other hother) (hfiles file hfile) hsame
  exact ⟨diagnostic, hmem, hseverity, rfl⟩

/-- The first place on a file is not after any other on it. -/
theorem region_le_of_isFirst
    {path : Path}
    {first place : Waypoint}
    (hfirst : IsFirst (fun place => place.path.Same path) (ofFiles severity files) first)
    (hplace : place ∈ ofFiles severity files)
    (hsame : place.path.Same path) :
    first.region.le place.region = true := by
  have hsorted : (ofFiles severity files).Pairwise fun a b => (a.compare b).isLE = true :=
    pairwise_isLE_mergeSort compare _
  rcases hfirst.eq_or_rel_of_pairwise hsorted hplace hsame with rfl | hle
  · exact Region.le_refl _
  · rw [compare, Path.compare_eq_eq_iff.2 (hfirst.holds.trans hsame.symm)] at hle
    exact hle

/-- The first place of a severity on a file is the earliest region of the file. -/
theorem exists_isFirst_of_earliest?
    (hfiles : ∀ file ∈ files, file ∈ view.files)
    (hfile : file ∈ files)
    {region : Region}
    (h : ProblemFile.earliest? severity file.2 = some region) :
    ∃ first, IsFirst (fun place => place.path.Same file.1) (ofFiles severity files) first ∧
      first.region = region := by
  have hearliest := ProblemFile.isEarliest_of_earliest? h
  obtain ⟨diagnostic, hdiagnostic, hseverity, rfl⟩ := hearliest.reached
  have hmem : ⟨file.1, diagnostic.region⟩ ∈ ofFiles severity files :=
    mem_ofFiles_iff.2 ⟨file, hfile, diagnostic, hdiagnostic, hseverity, rfl⟩
  rcases exists_isFirst_or_forall_not (fun place : Waypoint => place.path.Same file.1)
    (ofFiles severity files) with ⟨first, hfirst⟩ | hnone
  · refine ⟨first, hfirst, ?_⟩
    obtain ⟨found, hfound, hkind, hregion⟩ :=
      exists_of_mem_ofFiles hfiles hfile hfirst.mem hfirst.holds
    refine Region.eq_of_le_of_le (region_le_of_isFirst hfirst hmem (Path.Same.refl file.1)) ?_
    rw [hregion]
    exact hearliest.least found hfound hkind
  · exact (hnone _ hmem (Path.Same.refl file.1)).elim

/-- A file without diagnostics of a severity has no place of it. -/
theorem not_same_of_earliest?_eq_none
    (hfiles : ∀ file ∈ files, file ∈ view.files)
    (hfile : file ∈ files)
    (h : ProblemFile.earliest? severity file.2 = none) :
    ∀ place ∈ ofFiles severity files, ¬ place.path.Same file.1 := by
  intro place hplace hsame
  obtain ⟨diagnostic, hmem, hseverity, -⟩ := exists_of_mem_ofFiles hfiles hfile hplace hsame
  have hnone := List.countP_eq_zero.1 (ProblemFile.earliest?_eq_none_iff.1 h)
  exact hnone diagnostic hmem (decide_eq_true hseverity)

/-- There are no places of a severity where no diagnostic has it. -/
theorem ofFiles_eq_nil_iff :
    ofFiles severity files = [] ↔
      ∀ file ∈ files, ∀ diagnostic ∈ file.2, diagnostic.severity ≠ severity := by
  rw [List.eq_nil_iff_forall_not_mem]
  constructor
  · intro hnone file hfile diagnostic hdiagnostic hseverity
    exact hnone ⟨file.1, diagnostic.region⟩
      (mem_ofFiles_iff.2 ⟨file, hfile, diagnostic, hdiagnostic, hseverity, rfl⟩)
  · intro hnone place hplace
    obtain ⟨file, hfile, diagnostic, hdiagnostic, hseverity, -⟩ := mem_ofFiles_iff.1 hplace
    exact hnone file hfile diagnostic hdiagnostic hseverity

end Waypoint

namespace Overview

variable (view : DiagnosticView) (project : Project)

theorem waypoints_ofView :
    (ofView view project).waypoints =
      Waypoint.ofFiles .error (view.within project.root).files ++
        Waypoint.ofFiles .warning (view.within project.root).files :=
  rfl

/-- There is nowhere to go exactly if no file of the project has an error or a warning. -/
theorem waypoints_eq_nil_iff :
    (ofView view project).waypoints = [] ↔
      ∀ file ∈ view.files, project.covers file.1 = true → ¬ ProblemFile.HasProblem file := by
  rw [waypoints_ofView, List.append_eq_nil_iff, Waypoint.ofFiles_eq_nil_iff,
    Waypoint.ofFiles_eq_nil_iff]
  constructor
  · rintro ⟨hnoError, hnoWarning⟩ file hfile hcovers ⟨diagnostic, hmem, herror | hwarning⟩
    · exact hnoError file (List.mem_filter.2 ⟨hfile, hcovers⟩) diagnostic hmem
        (of_decide_eq_true herror)
    · exact hnoWarning file (List.mem_filter.2 ⟨hfile, hcovers⟩) diagnostic hmem
        (of_decide_eq_true hwarning)
  · intro hnone
    constructor
    · intro file hfile diagnostic hmem hseverity
      obtain ⟨hview, hcovers⟩ := List.mem_filter.1 hfile
      exact hnone file hview hcovers ⟨diagnostic, hmem, Or.inl (decide_eq_true hseverity)⟩
    · intro file hfile diagnostic hmem hseverity
      obtain ⟨hview, hcovers⟩ := List.mem_filter.1 hfile
      exact hnone file hview hcovers ⟨diagnostic, hmem, Or.inr (decide_eq_true hseverity)⟩

/-- The first place of a problem file among all places is the one that the problem file names. -/
theorem exists_isFirst_waypoint
    {problem : ProblemFile}
    (h : problem ∈ (ofView view project).problems) :
    ∃ first, IsFirst (fun place => place.path.Same problem.path)
      (ofView view project).waypoints first ∧ first.region = problem.anchor := by
  obtain ⟨file, hfile, hcovers, hproblem⟩ := (mem_problems_iff view project).1 h
  obtain ⟨anchor, hanchor, rfl⟩ := ProblemFile.ofFile?_eq_some_iff.1 hproblem
  have hown : file ∈ (view.within project.root).files := List.mem_filter.2 ⟨hfile, hcovers⟩
  have hfiles : ∀ file ∈ (view.within project.root).files, file ∈ view.files :=
    fun file hmem => List.mem_of_mem_filter hmem
  rw [waypoints_ofView]
  cases herror : ProblemFile.earliest? .error file.2 with
  | some region =>
      rw [herror, Option.some_or, Option.some.injEq] at hanchor
      obtain ⟨first, hfirst, hregion⟩ := Waypoint.exists_isFirst_of_earliest? hfiles hown herror
      exact ⟨first, hfirst.append _, hregion.trans hanchor⟩
  | none =>
      rw [herror, Option.none_or] at hanchor
      obtain ⟨first, hfirst, hregion⟩ := Waypoint.exists_isFirst_of_earliest? hfiles hown hanchor
      refine ⟨first, hfirst.append_left ?_, hregion⟩
      exact Waypoint.not_same_of_earliest?_eq_none hfiles hown herror

end Overview

/-- A view with an error between two warnings of a file, and a warning of a file before it. -/
def mixedView : DiagnosticView :=
  let found (name : String) (line : UInt32) (severity : Severity) : Diagnostic :=
    ⟨⟨name⟩, ⟨⟨line, 0⟩, ⟨line, 1⟩⟩, severity, "found", none⟩
  (DiagnosticView.empty.replace ⟨"/w/lib"⟩
    [found "/w/lib" 9 .warning, found "/w/lib" 4 .error, found "/w/lib" 2 .warning]).replace
    ⟨"/w/a"⟩ [found "/w/a" 1 .warning]

end TargetLint
