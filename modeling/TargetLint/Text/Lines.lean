import TargetLint.Text.Blank
import TargetLint.Text.Pieces

/-!
# Lines of a text

A newline ends a line.  A carriage return right before a newline belongs to the
line's end; any other one belongs to the line.  A text that ends in a newline has
no further empty line.
-/

namespace TargetLint
namespace Text

/-- Drop one carriage return at the end. -/
def dropFinalReturn (line : List Char) : List Char :=
  if line.getLast? = some '\r' then line.dropLast else line

/-- The lines of a text, given the pieces between its newlines. -/
def linesOfPieces : List (List Char) → List (List Char)
  | [] => []
  | [last] => if last = [] then [] else [last]
  | piece :: others => dropFinalReturn piece :: linesOfPieces others

/-- The lines of a text given as characters. -/
def lineChars (chars : List Char) : List (List Char) :=
  linesOfPieces (pieces '\n' chars)

/-- The lines of a text, without their ends. -/
def lines (text : String) : List String :=
  (lineChars text.toList).map String.ofList

/-- The lines that are not blank, trimmed, each with its number counted from one. -/
def numberedLines (text : String) : List (Nat × String) :=
  ((lines text).zipIdx 1).filterMap fun (line, number) =>
    let trimmed := trim line
    if trimmed = "" then none else some (number, trimmed)

end Text
end TargetLint
