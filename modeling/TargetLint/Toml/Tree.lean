import TargetLint.Datum

/-!
# Building tables

Headers and keys of a configuration file open tables and put values into them.  A
name is given a value once and a table is opened by one header.  A table that so far
only holds tables with headers may be opened by a header or by keys, not by both.
-/

namespace TargetLint
namespace Toml

/-- How a table came about: by its own header, by that of a table inside it, or by a dotted key. -/
inductive Origin where
  | header
  | implied
  | key
deriving DecidableEq, Repr

/-- What a name stands for while a file is being read; the last of several tables is still open. -/
inductive Node where
  | value (datum : Datum)
  | table (origin : Origin) (members : List (String × Node))
  | tables (closed : List (List (String × Node))) (last : List (String × Node))
deriving Inhabited

/-- The members of a table that is still open. -/
abbrev Members :=
  List (String × Node)

/-- Give a name another meaning in its place. -/
def replaceNode (members : Members) (name : String) (node : Node) : Members :=
  members.map fun member => if member.1 = name then (name, node) else member

/-- Put a value under the parts of a key. -/
def insertKey? (value : Datum) : List String → Members → Option Members
  | [], _ => none
  | [name], members =>
      match members.lookup name with
      | none => some (members ++ [(name, .value value)])
      | some _ => none
  | name :: next :: rest, members =>
      match members.lookup name with
      | none => do
          let inner ← insertKey? value (next :: rest) []
          return members ++ [(name, .table .key inner)]
      | some (.table .header _) => none
      | some (.table _ inner) => do
          return replaceNode members name (.table .key (← insertKey? value (next :: rest) inner))
      | some (.tables closed last) => do
          guard (rest ≠ [])
          return replaceNode members name
            (.tables closed (← insertKey? value (next :: rest) last))
      | some (.value _) => none

/-- Change the table that a header's parts lead to; tables on the way are opened if need be. -/
def updateAt?
    (change : Members → Option Members) :
    List String → Members → Option Members
  | [], members => change members
  | name :: rest, members =>
      match members.lookup name with
      | none => do
          let inner ← updateAt? change rest []
          return members ++ [(name, .table .implied inner)]
      | some (.table origin inner) => do
          return replaceNode members name (.table origin (← updateAt? change rest inner))
      | some (.tables closed last) => do
          return replaceNode members name (.tables closed (← updateAt? change rest last))
      | some (.value _) => none

/-- Open a table by its own header. -/
def openTable? (name : String) (members : Members) : Option Members :=
  match members.lookup name with
  | none => some (members ++ [(name, .table .header [])])
  | some (.table .implied inner) => some (replaceNode members name (.table .header inner))
  | some _ => none

/-- Open one more table of an array of tables. -/
def openArrayTable? (name : String) (members : Members) : Option Members :=
  match members.lookup name with
  | none => some (members ++ [(name, .tables [] [])])
  | some (.tables closed last) => some (replaceNode members name (.tables (closed ++ [last]) []))
  | some _ => none

/-- The members in the order of their names. -/
def sortMembers (members : List (String × Datum)) : List (String × Datum) :=
  members.mergeSort fun a b => (Ord.compare a.1 b.1).isLE

mutual

/-- What a node is as data. -/
def Node.datum : Node → Datum
  | .value datum => datum
  | .table _ members => .table (sortMembers (Members.data members))
  | .tables closed last =>
      .list (Members.tableData closed ++ [.table (sortMembers (Members.data last))])

/-- What members are as data. -/
def Members.data : List (String × Node) → List (String × Datum)
  | [] => []
  | (name, node) :: rest => (name, Node.datum node) :: Members.data rest

/-- What the tables of an array are as data. -/
def Members.tableData : List (List (String × Node)) → List Datum
  | [] => []
  | members :: rest => .table (sortMembers (Members.data members)) :: Members.tableData rest

end

/-- What a table is as data, its members in the order of their names. -/
def Members.datum (members : Members) : Datum :=
  .table (sortMembers (Members.data members))

end Toml
end TargetLint
