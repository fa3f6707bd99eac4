import TargetLint.DiagnosticView
import TargetLint.Project

/-!
# Overviews of a project

An overview counts the errors and warnings of a project, lists the files that have
any and puts their places into the order in which a reader is led through them:
errors first, then warnings, each by file and position.
-/

namespace TargetLint

/-- The errors and warnings of one file and where to start: at an error if there is one. -/
structure ProblemFile where
  path : Path
  label : String
  errors : Nat
  warnings : Nat
  anchor : Region
deriving DecidableEq, Repr, Inhabited

namespace ProblemFile

/-- The earliest region among diagnostics of one severity. -/
def earliest? (severity : Severity) (diagnostics : List Diagnostic) : Option Region :=
  diagnostics.foldl
    (fun found diagnostic =>
      if diagnostic.severity = severity then
        some (found.elim diagnostic.region (·.earlier diagnostic.region))
      else
        found)
    none

/-- What a file shows of its errors and warnings; absent where it has neither. -/
def ofFile? (project : Project) (file : Path × List Diagnostic) : Option ProblemFile := do
  let anchor ← (earliest? .error file.2).or (earliest? .warning file.2)
  return {
    path := file.1
    label := (project.pathWithin file.1).text
    errors := file.2.countP Diagnostic.isError
    warnings := file.2.countP Diagnostic.isWarning
    anchor := anchor }

/-- The counts that are not zero, in words. -/
def counts (file : ProblemFile) : String :=
  let errors := if file.errors = 0 then [] else [s!"Errors: {file.errors}"]
  let warnings := if file.warnings = 0 then [] else [s!"Warnings: {file.warnings}"]
  " ".intercalate (errors ++ warnings)

/-- Most errors first, then most warnings, then by label. -/
def compare (a b : ProblemFile) : Ordering :=
  (Ord.compare b.errors a.errors).then
    ((Ord.compare b.warnings a.warnings).then (Ord.compare a.label b.label))

end ProblemFile

/-- A place to lead a reader to. -/
structure Waypoint where
  path : Path
  region : Region
deriving DecidableEq, Repr, Inhabited

namespace Waypoint

/-- The places of a file's diagnostics of one severity. -/
def ofFile (severity : Severity) (file : Path × List Diagnostic) : List Waypoint :=
  (file.2.filter (·.severity = severity)).map fun diagnostic => ⟨file.1, diagnostic.region⟩

/-- By file, then by position. -/
def compare (a b : Waypoint) : Ordering :=
  (a.path.compare b.path).then (a.region.compare b.region)

/-- The places of the diagnostics of one severity in their order. -/
def ofFiles (severity : Severity) (files : List (Path × List Diagnostic)) : List Waypoint :=
  (files.flatMap (ofFile severity)).mergeSort fun a b => (a.compare b).isLE

end Waypoint

/-- A reader's way through places, around and around, with the number of the place that is next. -/
structure Tour where
  waypoints : List Waypoint
  next : Nat
deriving DecidableEq, Repr, Inhabited

namespace Tour

/-- The next place and the tour after it; no place where there is nothing to visit. -/
def visit (tour : Tour) : Option Waypoint × Tour :=
  if tour.waypoints = [] then
    (none, tour)
  else
    let index := tour.next % tour.waypoints.length
    (tour.waypoints[index]?, { tour with next := index + 1 })

/-- The next places, as many as asked for. -/
def visits (tour : Tour) : Nat → List (Option Waypoint)
  | 0 => []
  | count + 1 => tour.visit.1 :: tour.visit.2.visits count

/-- The number of places. -/
def length (tour : Tour) : Nat :=
  tour.waypoints.length

/-- There is nothing to visit. -/
def isEmpty (tour : Tour) : Bool :=
  tour.waypoints.isEmpty

end Tour

/-- The problems of a project: its files, worst first, and the places of errors, then warnings. -/
structure Overview where
  project : Project
  problems : List ProblemFile
  waypoints : List Waypoint
deriving DecidableEq, Repr, Inhabited

namespace Overview

/-- The overview of the given files, as far as the project covers them. -/
def ofFiles (files : List (Path × List Diagnostic)) (project : Project) : Overview :=
  let own := files.filter fun file => project.covers file.1
  { project := project
    problems := (own.filterMap (ProblemFile.ofFile? project)).mergeSort fun a b =>
      (a.compare b).isLE
    waypoints := Waypoint.ofFiles .error own ++ Waypoint.ofFiles .warning own }

/-- The overview of a project in a view. -/
def ofView (view : DiagnosticView) (project : Project) : Overview :=
  ofFiles view.files project

/-- The number of errors. -/
def errors (overview : Overview) : Nat :=
  totalOf ProblemFile.errors overview.problems

/-- The number of warnings. -/
def warnings (overview : Overview) : Nat :=
  totalOf ProblemFile.warnings overview.problems

/-- Errors and warnings of the file that is looked at, each over those of the project. -/
def statusLine (overview : Overview) (current : Path) : String :=
  let file := overview.problems.find? fun file => file.path.Same current
  let errors := (file.map ProblemFile.errors).getD 0
  let warnings := (file.map ProblemFile.warnings).getD 0
  s!"E:{errors}/{overview.errors} W:{warnings}/{overview.warnings}"

/-- The way through all places from the start. -/
def tour (overview : Overview) : Tour :=
  ⟨overview.waypoints, 0⟩

end Overview
end TargetLint
