import TargetLint.Toml.Scalar

/-!
# Text and keys of configuration files

Strings in their four forms, keys and what may stand between tokens.  Every reader
takes the characters that are left and returns what it read with what is left then.
-/

namespace TargetLint
namespace Toml

/-- A reader of part of a text. -/
abbrev Reader (α : Type) :=
  List Char → Option (α × List Char)

/-- A character that may stand in comments and strings: no control character but the tab. -/
def isPlain (c : Char) : Bool :=
  c = '\t' || (0x20 ≤ c.toNat && c.toNat ≠ 0x7F)

/-- A blank that does not end a line. -/
def isLineBlank (c : Char) : Bool :=
  c = ' ' || c = '\t'

/-- Without blanks in front. -/
def skipBlanks (chars : List Char) : List Char :=
  chars.dropWhile isLineBlank

/-- What follows a newline in front of a text. -/
def afterNewline? : List Char → Option (List Char)
  | '\n' :: rest => some rest
  | '\r' :: '\n' :: rest => some rest
  | _ => none

/-- Without a comment in front; what is left starts with a newline or is empty. -/
def skipComment? : List Char → Option (List Char)
  | '#' :: rest =>
      let left := rest.dropWhile isPlain
      if left = [] || (afterNewline? left).isSome then some left else none
  | chars => some chars

/-- What follows the rest of a line that holds no more than blanks and a comment. -/
def afterLine? (chars : List Char) : Option (List Char) := do
  let left ← skipComment? (skipBlanks chars)
  if left = [] then return [] else afterNewline? left

mutual

/-- Without blanks, newlines and comments in front. -/
def skipGaps? : List Char → Option (List Char)
  | '#' :: rest => skipGapsInComment? rest
  | '\n' :: rest => skipGaps? rest
  | '\r' :: '\n' :: rest => skipGaps? rest
  | c :: rest => if isLineBlank c then skipGaps? rest else some (c :: rest)
  | [] => some []

/-- Without the rest of a comment and the gaps after it. -/
def skipGapsInComment? : List Char → Option (List Char)
  | '\n' :: rest => skipGaps? rest
  | '\r' :: '\n' :: rest => skipGaps? rest
  | c :: rest => if isPlain c then skipGapsInComment? rest else none
  | [] => some []

end

/-- The number that hexadecimal digits spell. -/
def hexNumber (digits : List Char) : Nat :=
  digits.foldl
    (fun value c =>
      let digit :=
        if c.isDigit then c.toNat - '0'.toNat
        else if c.toNat < 'a'.toNat then c.toNat - 'A'.toNat + 10
        else c.toNat - 'a'.toNat + 10
      value * 16 + digit)
    0

/-- The character whose code point the next `count` hexadecimal digits spell. -/
def codePoint? (count : Nat) : Reader Char := fun chars => do
  let digits := chars.take count
  guard (digits.length = count ∧ digits.all isHexDigit)
  let code := hexNumber digits
  guard (code.isValidChar)
  return (Char.ofNat code, chars.drop count)

/-- What an escape stands for, after the backslash. -/
def escape? : Reader Char
  | 'b' :: rest => some ('\x08', rest)
  | 't' :: rest => some ('\t', rest)
  | 'n' :: rest => some ('\n', rest)
  | 'f' :: rest => some ('\x0c', rest)
  | 'r' :: rest => some ('\r', rest)
  | 'e' :: rest => some ('\x1b', rest)
  | '"' :: rest => some ('"', rest)
  | '\\' :: rest => some ('\\', rest)
  | 'x' :: rest => codePoint? 2 rest
  | 'u' :: rest => codePoint? 4 rest
  | 'U' :: rest => codePoint? 8 rest
  | _ => none

/-- The rest of a string in double quotes on one line; `done` is what was read, last first. -/
def basicBody? : Nat → List Char → Reader String
  | 0, _, _ => none
  | fuel + 1, done, chars =>
      match chars with
      | '"' :: rest => some (String.ofList done.reverse, rest)
      | '\\' :: rest => do
          let (c, left) ← escape? rest
          basicBody? fuel (c :: done) left
      | c :: rest => if isPlain c then basicBody? fuel (c :: done) rest else none
      | [] => none

/-- The rest of a string in single quotes on one line. -/
def literalBody? : Reader String := fun chars =>
  match chars.dropWhile fun c => isPlain c && c ≠ '\'' with
  | '\'' :: rest => some (String.ofList (chars.takeWhile fun c => isPlain c && c ≠ '\''), rest)
  | _ => none

/-- Without the newline that may follow the opening quotes of a string of several lines. -/
def dropFirstNewline (chars : List Char) : List Char :=
  (afterNewline? chars).getD chars

/--
The quotes in front of a text: whether they close a string of several lines, how many of them
belong to it, and what follows.
-/
def quoteRun? (quote : Char) (chars : List Char) : Option (Bool × Nat × List Char) :=
  let count := (chars.takeWhile (· = quote)).length
  let rest := chars.dropWhile (· = quote)
  if count < 3 then
    some (false, count, rest)
  else if count ≤ 5 then
    some (true, count - 3, rest)
  else
    none

/-- Without blanks and newlines in front. -/
def skipLines : List Char → List Char
  | '\r' :: '\n' :: rest => skipLines rest
  | c :: rest => if isLineBlank c || c = '\n' then skipLines rest else c :: rest
  | [] => []

/-- What follows a backslash that ends a line, and all blanks and newlines after it. -/
def afterFold? (chars : List Char) : Option (List Char) :=
  (afterNewline? (skipBlanks chars)).map skipLines

/-- The rest of a string of several lines; escapes are read if the quote is a double one. -/
def blockBody? (quote : Char) : Nat → List Char → Reader String
  | 0, _, _ => none
  | fuel + 1, done, chars =>
      match chars with
      | [] => none
      | c :: rest =>
          if c = quote then do
            let (closes, count, left) ← quoteRun? quote chars
            let next := List.replicate count quote ++ done
            if closes then return (String.ofList next.reverse, left)
            else blockBody? quote fuel next left
          else if c = '\\' ∧ quote = '"' then
            match afterFold? rest with
            | some left => blockBody? quote fuel done left
            | none => do
                let (escaped, left) ← escape? rest
                blockBody? quote fuel (escaped :: done) left
          else if c = '\n' ∨ isPlain c then
            blockBody? quote fuel (c :: done) rest
          else if c = '\r' ∧ rest.head? = some '\n' then
            blockBody? quote fuel (c :: done) rest
          else
            none

/-- A string of any form, at its opening quote; `fuel` exceeds the length of the text. -/
def string? (fuel : Nat) : Reader String := fun chars =>
  match chars with
  | '"' :: '"' :: '"' :: rest => blockBody? '"' fuel [] (dropFirstNewline rest)
  | '\'' :: '\'' :: '\'' :: rest => blockBody? '\'' fuel [] (dropFirstNewline rest)
  | '"' :: rest => basicBody? fuel [] rest
  | '\'' :: rest => literalBody? rest
  | _ => none

/-- A character of a key without quotes. -/
def isBareKeyChar (c : Char) : Bool :=
  c.isAlphanum || c = '_' || c = '-'

/-- One part of a key; `fuel` exceeds the length of the text. -/
def keyPart? (fuel : Nat) : Reader String := fun chars =>
  match chars with
  | '"' :: rest => basicBody? fuel [] rest
  | '\'' :: rest => literalBody? rest
  | _ =>
      let name := chars.takeWhile isBareKeyChar
      if name = [] then none
      else some (String.ofList name, chars.dropWhile isBareKeyChar)

/--
The parts of a key, with points between them; blanks around it are passed over.  A key with more
parts than the second number is refused.
-/
def keyParts? (fuel : Nat) : Nat → Reader (List String)
  | 0, _ => none
  | limit + 1, chars => do
      let (part, left) ← keyPart? fuel (skipBlanks chars)
      match skipBlanks left with
      | '.' :: rest => do
          let (parts, others) ← keyParts? fuel limit rest
          return (part :: parts, others)
      | others => return ([part], others)

/-- How deeply arrays and tables may be nested, and how many parts a key may have. -/
def nestingLimit : Nat :=
  80

/-- A key that does not nest tables too deeply. -/
def key? (fuel : Nat) : Reader (List String) :=
  keyParts? fuel nestingLimit

end Toml
end TargetLint
