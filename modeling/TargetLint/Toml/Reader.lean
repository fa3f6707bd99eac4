import TargetLint.Toml.Text
import TargetLint.Toml.Tree

/-!
# Reading configuration files

A file is a list of lines, each with a header, a key with its value, or neither.
Values may span lines where brackets or triple quotes hold them together.
-/

namespace TargetLint
namespace Toml

/-- The characters at which a value ends that is neither quoted nor bracketed. -/
def scalarEnds : List Char :=
  [' ', '\t', '\r', '\n', '#', '=', ',', '[', ']', '\x7b', '\x7d']

/-- A character of a value that is neither quoted nor bracketed. -/
def isScalarChar (c : Char) : Bool :=
  !scalarEnds.contains c

/-- After blanks, a text goes on with a word that is not quoted. -/
def goesOn (chars : List Char) : Bool :=
  match skipBlanks chars with
  | c :: _ => isScalarChar c && c ≠ '"' && c ≠ '\''
  | [] => false

/--
The characters of a value that is neither quoted nor bracketed, and what follows them.  Blanks
between two words belong to the value, as in a date with a time.
-/
def scalarChars : List Char → List Char × List Char
  | [] => ([], [])
  | c :: rest =>
      if isScalarChar c || (isLineBlank c && goesOn rest) then
        let (run, left) := scalarChars rest
        (c :: run, left)
      else
        ([], c :: rest)

/-- The name that is reserved for the only member of a moment. -/
def momentName : String :=
  "$__toml_private_datetime"

/-- A truth value, a number or a moment, which is a table with one member of a reserved name. -/
def scalar? : Reader Datum := fun chars =>
  let (run, left) := scalarChars chars
  if run = "true".toList then
    some (.flag true, left)
  else if run = "false".toList then
    some (.flag false, left)
  else if isInteger run || isFloat run then
    some (.other, left)
  else if isMoment run then
    some (.table [(momentName, .text (String.ofList run))], left)
  else
    none

mutual

/--
A value inside `depth` open brackets.  The first number, here and in the next three readers, bounds
the recursion; three times a number that exceeds the length of the text suffices.
-/
def value? : Nat → Nat → Reader Datum
  | 0, _, _ => none
  | fuel + 1, depth, chars =>
      match chars with
      | '"' :: _ => (string? fuel chars).map fun (text, left) => (.text text, left)
      | '\'' :: _ => (string? fuel chars).map fun (text, left) => (.text text, left)
      | '[' :: rest =>
          if depth < nestingLimit then items? fuel (depth + 1) [] rest else none
      | '\x7b' :: rest =>
          if depth < nestingLimit then pairs? fuel (depth + 1) [] rest else none
      | _ => scalar? chars

/-- The rest of an array; `done` are its items so far, last first. -/
def items? : Nat → Nat → List Datum → Reader Datum
  | 0, _, _, _ => none
  | fuel + 1, depth, done, chars => do
      let left ← skipGaps? chars
      match left with
      | ']' :: rest => return (.list done.reverse, rest)
      | _ => do
          let (item, after) ← value? fuel depth left
          match ← skipGaps? after with
          | ',' :: rest => items? fuel depth (item :: done) rest
          | ']' :: rest => return (.list (item :: done).reverse, rest)
          | _ => none

/-- The rest of a table in braces. -/
def pairs? : Nat → Nat → Members → Reader Datum
  | 0, _, _, _ => none
  | fuel + 1, depth, members, chars => do
      let left ← skipGaps? chars
      match left with
      | '\x7d' :: rest => return (members.datum, rest)
      | _ => do
          let (next, after) ← pair? fuel depth members left
          match ← skipGaps? after with
          | ',' :: rest => pairs? fuel depth next rest
          | '\x7d' :: rest => return (next.datum, rest)
          | _ => none

/-- The members after a key and its value, with newlines and comments wherever blanks may stand. -/
def pair? : Nat → Nat → Members → Reader Members
  | 0, _, _, _ => none
  | fuel + 1, depth, members, chars => do
      let (key, left) ← key? fuel chars
      match ← skipGaps? left with
      | '=' :: rest => do
          let (value, after) ← value? fuel depth (← skipGaps? rest)
          return (← insertKey? value key members, after)
      | _ => none

end

/-- A file while it is being read: its members and the parts of the last header. -/
structure Progress where
  members : Members
  header : List String

/-- The parts of a header after its opening bracket, and what follows the closing one. -/
def header? (fuel : Nat) (closing : List Char) : Reader (List String) := fun chars => do
  let (key, left) ← key? fuel chars
  guard (closing.isPrefixOf left)
  return (key, left.drop closing.length)

/-- A line that is not empty, without its end; `fuel` exceeds the length of the text. -/
def line? (fuel : Nat) (progress : Progress) : Reader Progress
  | '[' :: '[' :: rest => do
      let (key, left) ← header? fuel [']', ']'] rest
      let name ← key.getLast?
      return (⟨← updateAt? (openArrayTable? name) key.dropLast progress.members, key⟩, left)
  | '[' :: rest => do
      let (key, left) ← header? fuel [']'] rest
      let name ← key.getLast?
      return (⟨← updateAt? (openTable? name) key.dropLast progress.members, key⟩, left)
  | chars => do
      let (key, left) ← key? fuel chars
      match left with
      | '=' :: rest => do
          let (value, after) ← value? (3 * fuel) 0 (skipBlanks rest)
          return (⟨← updateAt? (insertKey? value key) progress.header progress.members,
            progress.header⟩, after)
      | _ => none

/-- The members of a file; the number exceeds the length of the text. -/
def lines? : Nat → Progress → List Char → Option Members
  | 0, _, _ => none
  | fuel + 1, progress, chars => do
      let left ← skipGaps? chars
      if left = [] then
        return progress.members
      else do
        let (next, after) ← line? (fuel + 1) progress left
        lines? fuel next (← afterLine? after)

/-- Without a byte order mark in front. -/
def dropMark : List Char → List Char
  | '\uFEFF' :: rest => rest
  | chars => chars

/-- The table that a text denotes; absent where the text is malformed. -/
def read? (text : String) : Option Datum :=
  let chars := dropMark text.toList
  (lines? (chars.length + 1) ⟨[], []⟩ chars).map Members.datum

end Toml
end TargetLint
