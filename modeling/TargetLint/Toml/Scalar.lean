import TargetLint.Text.Pieces

/-!
# Numbers and dates

Which runs of characters are numbers, dates and times in a configuration file.
Settings use no number, so a number is looked at only as far as it takes to tell it
from other values: a base may stand without digits, and what stands between two
underscores is not looked at beyond its ends.  Dates and times are checked in full.
-/

namespace TargetLint
namespace Toml

/-- One digit, then digits, with single underscores between digits. -/
def isDigitRun (isDigit : Char → Bool) : List Char → Bool
  | [] => false
  | [c] => isDigit c
  | c :: '_' :: rest => isDigit c && isDigitRun isDigit rest
  | c :: rest => isDigit c && isDigitRun isDigit rest

/-- A hexadecimal digit. -/
def isHexDigit (c : Char) : Bool :=
  c.isDigit || ('a' ≤ c && c ≤ 'f') || ('A' ≤ c && c ≤ 'F')

/-- A sign in front of a number. -/
def isSign (c : Char) : Bool :=
  c = '+' || c = '-'

/-- Without a sign in front. -/
def dropSign : List Char → List Char
  | [] => []
  | c :: rest => if isSign c then rest else c :: rest

/-- A decimal integer without sign; no zero stands in front of another digit. -/
def isUnsignedInteger (chars : List Char) : Bool :=
  isDigitRun Char.isDigit chars && (chars = ['0'] || chars.head? ≠ some '0')

/-- What follows the mark of a base: digits, or nothing. -/
def isBaseDigits (isDigit : Char → Bool) (chars : List Char) : Bool :=
  chars = [] || isDigitRun isDigit chars

/-- A character that stands in no integer: it makes a number a fraction or a text two words. -/
def isForeignToInteger (c : Char) : Bool :=
  c = '.' || c = 'e' || c = 'E' || c = ' '

/-- Groups between underscores: each starts with a hexadecimal digit, and all but the last end with one. -/
def areGroups : List (List Char) → Bool
  | [] => true
  | [last] => last.head?.any isHexDigit
  | group :: others =>
      group.head?.any isHexDigit && group.getLast?.any isHexDigit && areGroups others

/-- An integer with underscores and without sign; decimal digits stand before the first of them. -/
def isGroupedInteger (chars : List Char) : Bool :=
  match Text.pieces '_' chars with
  | first :: group :: others =>
      first ≠ [] && first.all Char.isDigit && first.head? ≠ some '0' &&
        areGroups (group :: others) && !chars.any isForeignToInteger
  | _ => false

/-- An integer, decimal with an optional sign or in base two, eight or sixteen. -/
def isInteger (chars : List Char) : Bool :=
  match chars with
  | '0' :: 'x' :: digits => isBaseDigits isHexDigit digits
  | '0' :: 'o' :: digits => isBaseDigits (fun c => '0' ≤ c && c ≤ '7') digits
  | '0' :: 'b' :: digits => isBaseDigits (fun c => c = '0' || c = '1') digits
  | _ => isUnsignedInteger (dropSign chars) || isGroupedInteger (dropSign chars)

/-- An exponent without its mark. -/
def isExponent (chars : List Char) : Bool :=
  isDigitRun Char.isDigit (dropSign chars)

/-- A fraction, after the point, that may be followed by an exponent. -/
def isFraction (chars : List Char) : Bool :=
  let isMark := fun c : Char => c = 'e' || c = 'E'
  let digits := chars.takeWhile fun c => !isMark c
  match chars.dropWhile fun c => !isMark c with
  | [] => isDigitRun Char.isDigit digits
  | _ :: exponent => isDigitRun Char.isDigit digits && isExponent exponent

/-- A number with a fraction or an exponent, an infinity or not a number. -/
def isFloat (chars : List Char) : Bool :=
  let unsigned := dropSign chars
  let isWhole := fun c : Char => c.isDigit || c = '_'
  let whole := unsigned.takeWhile isWhole
  match unsigned.dropWhile isWhole with
  | '.' :: fraction => isUnsignedInteger whole && isFraction fraction
  | 'e' :: exponent => isUnsignedInteger whole && isExponent exponent
  | 'E' :: exponent => isUnsignedInteger whole && isExponent exponent
  | rest => whole = [] && (rest = ['i', 'n', 'f'] || rest = ['n', 'a', 'n'])

/-- The number that two digits spell, where it does not exceed a limit. -/
def twoDigits? (limit : Nat) (a b : Char) : Option Nat :=
  let value := (a.toNat - '0'.toNat) * 10 + (b.toNat - '0'.toNat)
  if a.isDigit && b.isDigit && value ≤ limit then some value else none

/-- The number of days of a month. -/
def daysInMonth (year month : Nat) : Nat :=
  if month = 2 then
    if year % 4 = 0 ∧ (year % 100 ≠ 0 ∨ year % 400 = 0) then 29 else 28
  else if month = 4 ∨ month = 6 ∨ month = 9 ∨ month = 11 then
    30
  else
    31

/-- What follows a date in front of a text. -/
def afterDate? : List Char → Option (List Char)
  | a :: b :: c :: d :: '-' :: e :: f :: '-' :: g :: h :: rest => do
      let century ← twoDigits? 99 a b
      let year ← twoDigits? 99 c d
      let month ← twoDigits? 12 e f
      let day ← twoDigits? 31 g h
      guard (1 ≤ month ∧ 1 ≤ day ∧ day ≤ daysInMonth (century * 100 + year) month)
      return rest
  | _ => none

/-- What follows a fraction of a second, if there is one. -/
def afterSubsecond? : List Char → Option (List Char)
  | '.' :: c :: rest => if c.isDigit then some (rest.dropWhile Char.isDigit) else none
  | '.' :: [] => none
  | chars => some chars

/-- What follows a time of day in front of a text; seconds may be missing. -/
def afterTime? : List Char → Option (List Char)
  | a :: b :: ':' :: c :: d :: rest => do
      let _ ← twoDigits? 23 a b
      let _ ← twoDigits? 59 c d
      match rest with
      | ':' :: e :: f :: others => do
          let _ ← twoDigits? 60 e f
          afterSubsecond? others
      | ':' :: _ => none
      | others => return others
  | _ => none

/-- Nothing, or a distance from universal time. -/
def isOffset : List Char → Bool
  | [] => true
  | ['Z'] => true
  | ['z'] => true
  | [sign, a, b, ':', c, d] =>
      isSign sign && (twoDigits? 23 a b).isSome && (twoDigits? 59 c d).isSome
  | _ => false

/-- The mark between a date and a time. -/
def isTimeMark (c : Char) : Bool :=
  c = 'T' || c = 't' || c = ' '

/-- A date, a time of day, or both with an optional distance from universal time. -/
def isMoment (chars : List Char) : Bool :=
  match afterDate? chars with
  | some [] => true
  | some (mark :: time) => isTimeMark mark && ((afterTime? time).map isOffset).getD false
  | none => afterTime? chars = some []

end Toml
end TargetLint
